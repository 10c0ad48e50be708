import Gperftools.PageHeap.Merge
import Gperftools.PageHeap.Carve

/-!
# Releasing at least `n` pages

`ReleaseAtLeastNPages(num_pages)` goes round the containers of normal free
spans, `free_[0].normal` to `free_[kMaxPages - 1].normal` and then
`large_normal_`, from `release_index_` on, and releases one span of each
(`ReleaseSpan`) until it has counted `num_pages` pages; the outer loop starts
another round while `free_bytes` is positive.

What releasing keeps is the relation `Released`: the invariant, the free bytes
the heap holds, the pages it covers, and `free_bytes` loses at least the bytes
of the pages counted. A round keeps it (`releaseRound_spec`); it stops early
only on a failed `TCMalloc_SystemRelease`, and a round that counts no page has
found every container it visited empty. A whole round that finds nothing sees
`free_bytes = 0` (`Inv.freeBytes_eq_zero`), so each round of the outer loop
lowers `free_bytes` (`releaseRound_progress`), and the `free_bytes + 1` rounds
that `releaseAtLeastNPages` allows are enough: the loop ends on its own
condition (`releaseLoop_spec`), and more rounds change nothing
(`releaseLoop_add`). `PageHeap.Grow` puts these together for the whole call
(`releaseAtLeastNPages_correct`), next to a heap that has a span to release.
-/

namespace Gperftools.PageHeap

variable (b : Build)

/-! ## The iterations of a round -/

/-- The span a round takes from the container `i`: the first of
    `large_normal_` when `i = kMaxPages`, the last of `free_[i].normal`
    otherwise. -/
def releaseCandidate (h : PageHeap) (i : ℕ) : Option SpanId :=
  if i = b.kMaxPages then h.largeNormal.head?.map Prod.fst else (h.freeNormal i).getLast?

/-- `if (release_index_ > kMaxPages) release_index_ = 0;` -/
def wrapIndex (h : PageHeap) : PageHeap :=
  if b.kMaxPages < h.releaseIndex then { h with releaseIndex := 0 } else h

/-- What releasing keeps from `h` to `h'` while the count of released pages
    goes from `r` to `r'`: the invariant, the free bytes the heap holds, the
    pages it covers and the bytes taken from the system; failed calls to the
    system are only added, and `free_bytes` lost at least the bytes of the
    pages counted. -/
structure Released (h' h : PageHeap) (r' r : ℕ) : Prop where
  inv : Inv b h' ∅
  held : heldBytes b h' ∅ = heldBytes b h ∅
  covered : ∀ p, Covered h' p ↔ Covered h p
  systemTaken : h'.systemTaken = h.systemTaken
  sysAlloc : h'.calls.sysAlloc = h.calls.sysAlloc
  failures_le : h.calls.releaseFailures ≤ h'.calls.releaseFailures
  le : r ≤ r'
  freeBytes : h'.stats.freeBytes + (r' - r) * 2 ^ b.pageShift ≤ h.stats.freeBytes

variable {b} {env : Env} {h h' h'' : PageHeap} {H : Finset SpanId} {s : SpanId}

/-- One iteration of `releaseRound`, with the wrapped index and the candidate
    named. -/
theorem releaseRound_succ (num k : ℕ) (h : PageHeap) (released : ℕ) :
    releaseRound b env num (k + 1) h released =
      if released < num then
        match releaseCandidate b (wrapIndex b h) (wrapIndex b h).releaseIndex with
        | none => releaseRound b env num k
            { wrapIndex b h with releaseIndex := (wrapIndex b h).releaseIndex + 1 } released
        | some s =>
          if (releaseSpan b env (wrapIndex b h) s).2 = 0 then
            ((releaseSpan b env (wrapIndex b h) s).1, released, true)
          else releaseRound b env num k
            { (releaseSpan b env (wrapIndex b h) s).1 with
              releaseIndex := (releaseSpan b env (wrapIndex b h) s).1.releaseIndex + 1 }
            (Word.add 64 released (releaseSpan b env (wrapIndex b h) s).2)
      else (h, released, false) := rfl

theorem wrapIndex_eq (h : PageHeap) :
    wrapIndex b h =
      { h with releaseIndex := if b.kMaxPages < h.releaseIndex then 0 else h.releaseIndex } := by
  unfold wrapIndex
  split <;> rfl

theorem wrapIndex_releaseIndex_le (h : PageHeap) : (wrapIndex b h).releaseIndex ≤ b.kMaxPages := by
  rw [wrapIndex_eq]
  dsimp only
  split <;> omega

@[simp] theorem wrapIndex_stats (h : PageHeap) : (wrapIndex b h).stats = h.stats := by
  rw [wrapIndex_eq]

@[simp] theorem wrapIndex_calls (h : PageHeap) : (wrapIndex b h).calls = h.calls := by
  rw [wrapIndex_eq]

@[simp] theorem releaseCandidate_wrapIndex (h : PageHeap) (i : ℕ) :
    releaseCandidate b (wrapIndex b h) i = releaseCandidate b h i := by
  rw [wrapIndex_eq]
  rfl

/-- The index after `release_index_++` and the wrap of the next iteration:
    the round visits the containers in the order of the indices modulo
    `kMaxPages + 1`. -/
theorem wrapIndex_succ (h : PageHeap) {j : ℕ} (hj : j ≤ b.kMaxPages) :
    (wrapIndex b { h with releaseIndex := j + 1 }).releaseIndex = (j + 1) % (b.kMaxPages + 1) := by
  rw [wrapIndex_eq]
  dsimp only
  split
  · rw [show j + 1 = b.kMaxPages + 1 by omega, Nat.mod_self]
  · rw [Nat.mod_eq_of_lt (by omega)]

/-- Each container is visited once in a round of `kMaxPages + 1`
    iterations, wherever it starts. -/
theorem exists_index_of_le {n j i : ℕ} (hj : j ≤ n) (hi : i ≤ n) : ∃ t < n + 1, (j + t) % (n + 1) = i := by
  by_cases hji : j ≤ i
  · exact ⟨i - j, by omega, by rw [Nat.add_sub_cancel' hji, Nat.mod_eq_of_lt (by omega)]⟩
  · refine ⟨i + (n + 1) - j, by omega, ?_⟩
    rw [show j + (i + (n + 1) - j) = i + (n + 1) by omega, Nat.add_mod_right,
      Nat.mod_eq_of_lt (by omega)]

@[simp] theorem releaseCandidate_setReleaseIndex (h : PageHeap) (i j : ℕ) :
    releaseCandidate b { h with releaseIndex := i } j = releaseCandidate b h j := rfl

/-! ## The spans a round finds -/

/-- The invariant does not read the release index. -/
theorem Inv.setReleaseIndex (hinv : Inv b h H) (i : ℕ) : Inv b { h with releaseIndex := i } H :=
  hinv.of_holes hinv.layout subset_rfl (fun _ _ => Iff.rfl) (fun _ ht ht' => absurd ht ht')
    hinv.holes_live (fun _ _ => rfl) (fun _ => rfl) (fun _ => rfl) rfl rfl le_rfl hinv.taken rfl
    hinv.allocator

/-- A candidate is a normal free span of the heap. -/
theorem Inv.releaseCandidate_freeOn (hinv : Inv b h H) {i : ℕ}
    (hc : releaseCandidate b h i = some s) : FreeOn h H true s := by
  unfold releaseCandidate at hc
  split at hc
  · obtain ⟨x, hx, rfl⟩ := Option.map_eq_some_iff.mp hc
    exact (hinv.onSet true x (List.mem_of_mem_head? hx)).1
  · exact (hinv.onList true i s (List.mem_of_getLast? hc)).1

/-- With no candidate anywhere, the normal lists and `large_normal_` are
    empty, and so `free_bytes` is `0`. -/
theorem Inv.freeBytes_eq_zero (hinv : Inv b h H)
    (hnone : ∀ i ≤ b.kMaxPages, releaseCandidate b h i = none) : h.stats.freeBytes = 0 := by
  have hlists : ∀ i ∈ Finset.range b.kMaxPages, (h.lists true i).length * (i + 1) = 0 := by
    intro i hi
    have hi := Finset.mem_range.mp hi
    have := hnone i hi.le
    rw [releaseCandidate, if_neg hi.ne] at this
    simp [lists, List.getLast?_eq_none_iff.mp this]
  have hset : h.sets true = [] := by
    have := hnone b.kMaxPages le_rfl
    rw [releaseCandidate, if_pos rfl] at this
    simpa [sets] using this
  rw [hinv.free, listedPages, Finset.sum_eq_zero hlists, hset]
  simp

theorem le_listedPages_of_mem_lists (b : Build) {lists : ℕ → List SpanId} (set : List (SpanId × ℕ)) {i : ℕ}
    (hi : i < b.kMaxPages) (hs : s ∈ lists i) : i + 1 ≤ listedPages b lists set := by
  have hle := Finset.single_le_sum (fun j _ => Nat.zero_le ((lists j).length * (j + 1)))
    (Finset.mem_range.mpr hi)
  have hlen := List.length_pos_of_mem hs
  unfold listedPages
  calc i + 1 ≤ (lists i).length * (i + 1) := Nat.le_mul_of_pos_left _ hlen
    _ ≤ _ := hle
    _ ≤ _ := Nat.le_add_right _ _

theorem le_listedPages_of_mem_set (b : Build) (lists : ℕ → List SpanId) {set : List (SpanId × ℕ)}
    {x : SpanId × ℕ} (hx : x ∈ set) : x.2 ≤ listedPages b lists set :=
  (List.le_sum_of_mem (List.mem_map_of_mem hx)).trans (Nat.le_add_left _ _)

/-- With `free_bytes` at `0`, no span is on the normal free lists. -/
theorem Inv.not_normal_of_freeBytes (hinv : Inv b h ∅) (hfree : h.stats.freeBytes = 0)
    (hlive : h.spanAllocator.Live s) : (h.spans s).location ≠ .onNormalFreelist := by
  intro hloc
  have hpages : listedPages b (h.lists true) (h.sets true) = 0 := by
    have := hinv.free
    rw [hfree] at this
    exact (Nat.mul_eq_zero.mp this.symm).resolve_right (by positivity)
  have hl := hinv.listed s hlive (Finset.notMem_empty s) (by rw [hloc]; simp)
  have hbounds := (hinv.layout.bounds s hlive).2.1
  unfold Listed at hl
  rw [hloc, beq_self_eq_true] at hl
  split at hl
  · have := le_listedPages_of_mem_set b (h.lists true) hl
    omega
  · have := le_listedPages_of_mem_lists b (h.sets true) (by omega) hl
    omega

/-! ## What releasing keeps -/

namespace Released

theorem refl (hinv : Inv b h ∅) (r : ℕ) : Released b h h r r :=
  ⟨hinv, rfl, fun _ => Iff.rfl, rfl, rfl, le_rfl, le_rfl, by simp⟩

theorem trans {r r' r'' : ℕ} (h2 : Released b h'' h' r'' r') (h1 : Released b h' h r' r) :
    Released b h'' h r'' r := by
  refine ⟨h2.inv, h2.held.trans h1.held, fun p => (h2.covered p).trans (h1.covered p),
    h2.systemTaken.trans h1.systemTaken, h2.sysAlloc.trans h1.sysAlloc, h1.failures_le.trans h2.failures_le,
    h1.le.trans h2.le, ?_⟩
  have h1f := h1.freeBytes
  have h2f := h2.freeBytes
  rw [show r'' - r = (r'' - r') + (r' - r) by have := h1.le; have := h2.le; omega, Nat.add_mul]
  omega

/-- The bound that keeps the count of released pages from wrapping. -/
theorem bound {r r' : ℕ} (hR : Released b h' h r' r)
    (hb : r * 2 ^ b.pageShift + h.stats.freeBytes < 2 ^ 64) :
    r' * 2 ^ b.pageShift + h'.stats.freeBytes < 2 ^ 64 := by
  have hf := hR.freeBytes
  rw [show r' = r + (r' - r) by have := hR.le; omega, Nat.add_mul]
  omega

/-- The release index is not part of what releasing keeps. -/
theorem reindex (hinv : Inv b h ∅) (i r : ℕ) : Released b { h with releaseIndex := i } h r r :=
  ⟨hinv.setReleaseIndex i, rfl, fun _ => Iff.rfl, rfl, rfl, le_rfl, le_rfl, by simp⟩

theorem wrapIndex (hinv : Inv b h ∅) (r : ℕ) : Released b (wrapIndex b h) h r r := by
  rw [wrapIndex_eq]
  exact reindex hinv _ r

/-- `ReleaseSpan` on a candidate keeps what releasing keeps, counting the
    pages it returns; when it returns `0`, its call to
    `TCMalloc_SystemRelease` failed. -/
theorem releaseSpan (hinv : Inv b h ∅) {i : ℕ} (hc : releaseCandidate b h i = some s) (r : ℕ) :
    Released b (PageHeap.releaseSpan b env h s).1 h (r + (PageHeap.releaseSpan b env h s).2) r ∧
      ((PageHeap.releaseSpan b env h s).2 = 0 →
        (PageHeap.releaseSpan b env h s).1.calls.releaseFailures = h.calls.releaseFailures + 1) := by
  have hs := hinv.releaseCandidate_freeOn hc
  have hnormal : (h.spans s).location = .onNormalFreelist := beq_iff_eq.mp hs.normal_eq
  obtain ⟨hinv1, hheld1, hk1, hcov1, hfree1, hcase⟩ :=
    @Inv.releaseSpan b env h s hinv hs.live hnormal
  refine ⟨⟨hinv1, hheld1, hcov1, hk1.systemTaken, hk1.sysAlloc, hk1.failures_le, Nat.le_add_right _ _,
    by rw [Nat.add_sub_cancel_left]; exact hfree1⟩, fun hlen => ?_⟩
  rcases hcase with ⟨-, hfail⟩ | hpages
  · exact hfail
  · -- a released span has at least one page
    have := (hinv.layout.bounds s hs.live).2.1
    omega

end Released

/-! ## A round -/

/-- A round of `k` iterations keeps what releasing keeps. If it stops, a
    call to `TCMalloc_SystemRelease` failed; if it neither stops nor
    counts a page while pages are still wanted, every container it visited,
    from the wrapped index on, had no candidate. -/
theorem releaseRound_spec (num : ℕ) (k : ℕ) {h h' : PageHeap} {r r' : ℕ} {stop : Bool}
    (hinv : Inv b h ∅) (hb : r * 2 ^ b.pageShift + h.stats.freeBytes < 2 ^ 64)
    (hr : releaseRound b env num k h r = (h', r', stop)) :
    Released b h' h r' r ∧
      (stop = true → h.calls.releaseFailures < h'.calls.releaseFailures) ∧
      (stop = false → r' = r → r < num → ∀ t < k,
        releaseCandidate b h (((wrapIndex b h).releaseIndex + t) % (b.kMaxPages + 1)) = none) := by
  induction k generalizing h r with
  | zero =>
    simp only [releaseRound, Prod.mk.injEq] at hr
    obtain ⟨rfl, rfl, rfl⟩ := hr
    exact ⟨Released.refl hinv r, by simp, fun _ _ _ t ht => absurd ht (Nat.not_lt_zero t)⟩
  | succ k ih =>
    rw [releaseRound_succ] at hr
    have hw := Released.wrapIndex hinv r
    have hj : (wrapIndex b h).releaseIndex ≤ b.kMaxPages := wrapIndex_releaseIndex_le h
    split_ifs at hr with hlt
    · cases hc : releaseCandidate b (wrapIndex b h) (wrapIndex b h).releaseIndex with
      | none =>
        -- an empty container: only the index moves on
        simp only [hc] at hr
        have hR0 := (Released.reindex hw.inv ((wrapIndex b h).releaseIndex + 1) r).trans hw
        obtain ⟨hR, hstop, hidle⟩ := ih hR0.inv (by simpa using hb) hr
        refine ⟨hR.trans hR0, fun hs => by simpa using hstop hs, fun hs hr' hlt' t ht => ?_⟩
        cases t with
        | zero =>
          rw [Nat.add_zero, Nat.mod_eq_of_lt (by omega), ← releaseCandidate_wrapIndex]
          exact hc
        | succ t =>
          have := hidle hs hr' hlt' t (by omega)
          rw [wrapIndex_succ _ hj, Nat.mod_add_mod, releaseCandidate_setReleaseIndex,
            releaseCandidate_wrapIndex] at this
          rw [← Nat.add_assoc, Nat.add_right_comm]
          exact this
      | some s =>
        simp only [hc] at hr
        obtain ⟨hR1, hfail⟩ := @Released.releaseSpan b env _ s hw.inv _ hc r
        split_ifs at hr with hlen
        · -- the release failed: the round stops
          simp only [Prod.mk.injEq] at hr
          obtain ⟨rfl, rfl, rfl⟩ := hr
          have hcalls := hfail hlen
          rw [hlen, Nat.add_zero] at hR1
          refine ⟨hR1.trans hw, fun _ => ?_, fun hs => absurd hs Bool.noConfusion⟩
          rw [hcalls, wrapIndex_calls]
          exact Nat.lt_succ_self _
        · -- the span was released: its pages are counted, without wrapping
          have hb1 := (hR1.trans hw).bound hb
          have hword : Word.add 64 r (PageHeap.releaseSpan b env (wrapIndex b h) s).2 =
              r + (PageHeap.releaseSpan b env (wrapIndex b h) s).2 :=
            Word.add_of_lt (lt_of_le_of_lt (Nat.le_mul_of_pos_right _ (by positivity))
              (lt_of_le_of_lt (Nat.le_add_right _ _) hb1))
          rw [hword] at hr
          have hR2 := Released.reindex hR1.inv
            ((PageHeap.releaseSpan b env (wrapIndex b h) s).1.releaseIndex + 1)
            (r + (PageHeap.releaseSpan b env (wrapIndex b h) s).2)
          obtain ⟨hR, hstop, -⟩ := ih hR2.inv (by simpa using hb1) hr
          have hR' := hR.trans (hR2.trans (hR1.trans hw))
          refine ⟨hR', fun hs => ?_, fun _ hr' _ => ?_⟩
          · exact lt_of_le_of_lt (hR1.trans hw).failures_le (hstop hs)
          · have := hR.le
            omega
    · simp only [Prod.mk.injEq] at hr
      obtain ⟨rfl, rfl, rfl⟩ := hr
      exact ⟨Released.refl hinv r, by simp, fun _ _ hlt' => absurd hlt' hlt⟩

/-- A whole round that neither stops nor is over before it starts counts a
    page, and so lowers `free_bytes`. -/
theorem releaseRound_progress {num r r' : ℕ} (hinv : Inv b h ∅)
    (hb : r * 2 ^ b.pageShift + h.stats.freeBytes < 2 ^ 64) (hlt : r < num)
    (hfree : 0 < h.stats.freeBytes)
    (hr : releaseRound b env num (b.kMaxPages + 1) h r = (h', r', false)) :
    h'.stats.freeBytes < h.stats.freeBytes := by
  obtain ⟨hR, -, hidle⟩ := releaseRound_spec num (b.kMaxPages + 1) hinv hb hr
  have hcount : r < r' := by
    by_contra hle
    -- a round that counted nothing saw only empty containers
    have hnone := hidle rfl (le_antisymm (not_lt.mp hle) hR.le) hlt
    have := hinv.freeBytes_eq_zero fun i hi => by
      obtain ⟨t, ht, hti⟩ := exists_index_of_le (wrapIndex_releaseIndex_le h) hi
      rw [← hti]
      exact hnone t ht
    omega
  have hf := hR.freeBytes
  have : 0 < (r' - r) * 2 ^ b.pageShift := Nat.mul_pos (by omega) (by positivity)
  omega

/-! ## The outer loop -/

/-- The outer loop keeps what releasing keeps; given more rounds than
    `free_bytes`, it ends on its own condition: it has counted `num` pages,
    `free_bytes` is `0`, or a call to `TCMalloc_SystemRelease` failed. -/
theorem releaseLoop_spec (num : ℕ) (fuel : ℕ) {h h' : PageHeap} {r r' : ℕ} (hinv : Inv b h ∅)
    (hb : r * 2 ^ b.pageShift + h.stats.freeBytes < 2 ^ 64)
    (hr : releaseLoop b env num fuel h r = (h', r')) :
    Released b h' h r' r ∧
      (h.stats.freeBytes < fuel → num ≤ r' ∨ h'.stats.freeBytes = 0 ∨
        h.calls.releaseFailures < h'.calls.releaseFailures) := by
  induction fuel generalizing h r with
  | zero =>
    simp only [releaseLoop, Prod.mk.injEq] at hr
    obtain ⟨rfl, rfl⟩ := hr
    exact ⟨Released.refl hinv r, fun hf => absurd hf (Nat.not_lt_zero _)⟩
  | succ fuel ih =>
    rw [releaseLoop] at hr
    split_ifs at hr with hg
    · rcases hround : releaseRound b env num (b.kMaxPages + 1) h r with ⟨h1, r1, stop⟩
      rw [hround] at hr
      obtain ⟨hR1, hstop, -⟩ := releaseRound_spec num (b.kMaxPages + 1) hinv hb hround
      cases stop with
      | true =>
        simp only [if_true, Prod.mk.injEq] at hr
        obtain ⟨rfl, rfl⟩ := hr
        exact ⟨hR1, fun _ => Or.inr (Or.inr (hstop rfl))⟩
      | false =>
        simp only [Bool.false_eq_true, if_false] at hr
        have hless := releaseRound_progress hinv hb hg.1 hg.2 hround
        obtain ⟨hR, hend⟩ := ih hR1.inv (hR1.bound hb) hr
        refine ⟨hR.trans hR1, fun hf => ?_⟩
        rcases hend (by omega) with hnum | hzero | hfail
        · exact Or.inl hnum
        · exact Or.inr (Or.inl hzero)
        · exact Or.inr (Or.inr (lt_of_le_of_lt hR1.failures_le hfail))
    · simp only [Prod.mk.injEq] at hr
      obtain ⟨rfl, rfl⟩ := hr
      refine ⟨Released.refl hinv r, fun _ => ?_⟩
      rw [not_and_or, not_lt, not_lt, Nat.le_zero] at hg
      exact hg.imp id Or.inl

/-- Rounds beyond `free_bytes` change nothing: the loop is over before the
    fuel runs out. -/
theorem releaseLoop_add (num : ℕ) (fuel : ℕ) {h : PageHeap} {r : ℕ} (hinv : Inv b h ∅)
    (hb : r * 2 ^ b.pageShift + h.stats.freeBytes < 2 ^ 64) (hf : h.stats.freeBytes < fuel)
    (m : ℕ) : releaseLoop b env num (fuel + m) h r = releaseLoop b env num fuel h r := by
  induction fuel generalizing h r with
  | zero => exact absurd hf (Nat.not_lt_zero _)
  | succ fuel ih =>
    rw [Nat.add_right_comm, releaseLoop.eq_2, releaseLoop.eq_2]
    split_ifs with hg
    · rcases hround : releaseRound b env num (b.kMaxPages + 1) h r with ⟨h1, r1, stop⟩
      cases stop with
      | true => rfl
      | false =>
        have hR1 := (releaseRound_spec num (b.kMaxPages + 1) hinv hb hround).1
        have hless := releaseRound_progress hinv hb hg.1 hg.2 hround
        exact ih hR1.inv (hR1.bound hb) (by omega)
    · rfl

end Gperftools.PageHeap
