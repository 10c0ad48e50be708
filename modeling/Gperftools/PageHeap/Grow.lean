import Gperftools.PageHeap.Release

/-!
# Growing the heap and deleting spans keep the invariant

The representation invariant is what makes `ReleaseAtLeastNPages` and the
span lists correct (`PageHeap.Release`, `PageHeap.SpanLists`); here the two
operations that give the heap free spans keep it.

* `Inv.deleteLocked`: `DeleteLocked(span)` of a span in use makes it a free
  hole, coalesces it (`Inv.mergeIntoFreeList`) and scavenges; the invariant
  holds after it, provided the bytes of the span and the free bytes fit in
  what the system gave, which the invariant does not count for spans in use;
* `Inv.recordNewSpan`: a new span of pages no span covers, recorded in the
  pagemap, keeps the layout, and is live and in use;
* `Inv.growHeap`: `GrowHeap(n)` keeps the invariant whenever the system's
  answers to the calls it makes are fresh memory (`FreshAlloc`): at least a
  page, within the pages the pagemap holds, covered by no span, and counted
  by `TCMalloc_SystemTaken` without wrapping. `GrowHeap` is cut in two at the
  memory it received: `growAlloc`, the calls to `EnsureLimit` and
  `TCMalloc_SystemAlloc`, and `growInstall`, which gives the memory to the
  heap as a span and deletes it;
* `releaseAtLeastNPages_correct`: the whole of `ReleaseAtLeastNPages`, from
  the loop's lemmas of `PageHeap.Release`. It is stated here, after
  `grownHeap`: the heap after `GrowHeap(1)` from the constructor, with the
  release rate at zero so that the scavenger leaves its one span of 128 pages
  on a normal free list for `ReleaseAtLeastNPages` to release.
-/

namespace Gperftools.PageHeap

variable {b : Build} {env : Env} {h : PageHeap} {H : Finset SpanId} {s : SpanId}

/-! ## Steps that only count -/

/-- The invariant reads neither the calls to the system, nor the counters
    but `free_bytes` and `unmapped_bytes`, and allows more bytes taken. -/
theorem Inv.of_same (hinv : Inv b h H) {h' : PageHeap} (hsp : h'.spans = h.spans)
    (hal : h'.spanAllocator = h.spanAllocator) (hpm : h'.pagemap = h.pagemap)
    (hl : ∀ c, h'.lists c = h.lists c) (hs : ∀ c, h'.sets c = h.sets c)
    (hfree : h'.stats.freeBytes = h.stats.freeBytes)
    (hunm : h'.stats.unmappedBytes = h.stats.unmappedBytes)
    (hle : h.systemTaken ≤ h'.systemTaken) (ht : h'.systemTaken < 2 ^ 64) : Inv b h' H :=
  hinv.of_holes (by rw [hsp, hal, hpm]; exact hinv.layout) subset_rfl (fun t _ => by rw [hal])
    (fun t ht ht' => absurd ht ht') (fun t ht => hal ▸ hinv.holes_live t ht) (fun t _ => by rw [hsp])
    hl hs hfree hunm hle ht (by rw [hsp]) (hal ▸ hinv.allocator)

theorem Inv.setScavengeCounter (hinv : Inv b h H) (c : ℤ) : Inv b { h with scavengeCounter := c } H :=
  hinv.of_same rfl rfl rfl (fun _ => rfl) (fun _ => rfl) rfl rfl le_rfl hinv.taken

/-! ## Deleting a span -/

/-- A span in use becomes a hole, as `DeleteLocked` takes it: its bytes join
    those the heap holds, which must stay within what the system gave. -/
theorem Inv.insert_inUse (hinv : Inv b h H) (hlive : h.spanAllocator.Live s) (hs : s ∉ H)
    (huse : (h.spans s).location = .inUse)
    (hheld : heldBytes b h H + (h.spans s).length * 2 ^ b.pageShift ≤ h.systemTaken) :
    Inv b h (insert s H) := by
  -- a free span is not `s`, which is in use
  have hnot : ∀ c t, FreeOn h H c t → t ∉ insert s H := fun c t hf ht => by
    rcases Finset.mem_insert.mp ht with rfl | ht
    · exact hf.ne_inUse huse
    · exact hf.not_mem ht
  refine ⟨hinv.layout, fun t ht => ?_, fun c i t ht => ?_, fun c x hx => ?_,
    fun t ht htH hloc => hinv.listed t ht (fun h' => htH (Finset.mem_insert_of_mem h')) hloc,
    hinv.nodup, hinv.sorted, hinv.free, hinv.unmapped, ?_, hinv.taken, hinv.allocator⟩
  · rcases Finset.mem_insert.mp ht with rfl | ht
    · exact hlive
    · exact hinv.holes_live t ht
  · obtain ⟨hf, h1, h2⟩ := hinv.onList c i t ht
    exact ⟨hf.of_not_mem (hnot c t hf), h1, h2⟩
  · obtain ⟨hf, h1, h2⟩ := hinv.onSet c x hx
    exact ⟨hf.of_not_mem (hnot c x.1 hf), h1, h2⟩
  · unfold heldBytes at hheld ⊢
    rw [Finset.sum_insert hs]
    omega

/-- What `ReleaseAtLeastNPages` keeps, from a heap of the invariant. -/
theorem Released.releaseAtLeastNPages (hinv : Inv b h ∅) (num : ℕ) :
    Released b (releaseAtLeastNPages b env h num).1 h (releaseAtLeastNPages b env h num).2 0 :=
  (releaseLoop_spec num (h.stats.freeBytes + 1) hinv (by have := hinv.freeBytes_le; omega) rfl).1

/-- `IncrementalScavenge` only releases and sets its counter. -/
theorem Inv.incrementalScavenge (hinv : Inv b h ∅) (n : ℕ) :
    Inv b (PageHeap.incrementalScavenge b env h n) ∅ := by
  unfold PageHeap.incrementalScavenge
  dsimp only
  split_ifs with hpos hoff hzero
  · exact hinv.setScavengeCounter _
  · exact (hinv.setScavengeCounter _).setScavengeCounter _
  -- the release runs on the heap with the counter set, and keeps the invariant
  all_goals exact (@Released.releaseAtLeastNPages b env _ (hinv.setScavengeCounter _) 1).inv.setScavengeCounter _

/-- `DeleteLocked(span)` of a span in use: the span is freed, coalesced with
    its free neighbours and put on a list, and the scavenger may release; the
    invariant holds after it when the span's bytes, with the free bytes, fit
    in what the system gave. -/
theorem Inv.deleteLocked (hinv : Inv b h ∅) (hlive : h.spanAllocator.Live s)
    (huse : (h.spans s).location = .inUse)
    (hheld : heldBytes b h ∅ + (h.spans s).length * 2 ^ b.pageShift ≤ h.systemTaken) :
    Inv b (PageHeap.deleteLocked b env h s) ∅ := by
  -- `s` becomes a normal hole, which `MergeIntoFreeList` puts back on a list
  let sp : Span := { h.spans s with sizeclass := 0, sample := false, location := .onNormalFreelist }
  obtain ⟨hinv₁, -⟩ := (hinv.insert_inUse hlive (Finset.notMem_empty s) huse hheld).setSpan
    (Finset.mem_insert_self s ∅) sp rfl rfl
  rw [insert_empty_eq] at hinv₁
  have hloc : ((h.setSpan s sp).spans s).location ≠ .inUse := by
    rw [setSpan_spans, Function.update_self]
    exact Span.Location.noConfusion
  unfold PageHeap.deleteLocked
  exact (@Inv.mergeIntoFreeList b env _ s hinv₁ hloc).1.incrementalScavenge _

/-! ## A new span -/

/-- A new span `s` on pages that no span covers, recorded at its first and
    last page, keeps the layout. -/
theorem Layout.record {spans : SpanId → Span} {live : SpanId → Prop} {pm : ℕ → Option SpanId}
    (hL : Layout b spans live pm) (hs : ¬ live s) {sp : Span} (hp : 1 ≤ sp.start)
    (hlen : 1 ≤ sp.length) (hend : sp.start + sp.length ≤ 2 ^ (kAddressBits - b.pageShift))
    (hfresh : ∀ t, live t →
      sp.start + sp.length ≤ (spans t).start ∨ (spans t).start + (spans t).length ≤ sp.start) :
    Layout b (Function.update spans s sp) (fun t => live t ∨ t = s)
      (Function.update (Function.update pm sp.start (some s)) (sp.start + sp.length - 1) (some s)) := by
  have hspans : ∀ t, live t → Function.update spans s sp t = spans t := fun t ht =>
    Function.update_of_ne (fun (e : t = s) => hs (e ▸ ht)) _ _
  -- the pagemap changes only on the pages of the new span, where no old span lies
  have hpm : ∀ q, q < sp.start ∨ sp.start + sp.length ≤ q →
      Function.update (Function.update pm sp.start (some s)) (sp.start + sp.length - 1) (some s) q =
        pm q := by
    intro q hq
    rw [Function.update_of_ne (by omega), Function.update_of_ne (by omega)]
  have hout : ∀ t, live t → ∀ q, (spans t).start ≤ q → q < (spans t).start + (spans t).length →
      q < sp.start ∨ sp.start + sp.length ≤ q := by
    intro t ht q h1 h2
    rcases hfresh t ht with h | h <;> omega
  refine ⟨fun t ht => ?_, fun t u ht hu htu => ?_, fun t ht => ?_, fun t ht => ?_, fun q t hq => ?_⟩
  · rcases ht with ht | rfl
    · rw [hspans t ht]
      exact hL.bounds t ht
    · rw [Function.update_self]
      exact ⟨hp, hlen, hend⟩
  · rcases ht with ht | rfl <;> rcases hu with hu | rfl
    · rw [hspans t ht, hspans u hu]
      exact hL.disjoint t u ht hu htu
    · rw [hspans t ht, Function.update_self]
      exact (hfresh t ht).symm
    · rw [hspans u hu, Function.update_self]
      exact hfresh u hu
    · exact absurd rfl htu
  · rcases ht with ht | rfl
    · have := (hL.bounds t ht).2.1
      rw [hspans t ht, hpm _ (hout t ht _ le_rfl (by omega))]
      exact hL.first t ht
    · -- a span of one page has its first page as its last
      rw [Function.update_self, Function.update_apply, Function.update_self]
      split_ifs <;> rfl
  · rcases ht with ht | rfl
    · have := (hL.bounds t ht).2.1
      rw [hspans t ht, hpm _ (hout t ht _ (by omega) (by omega))]
      exact hL.last t ht
    · rw [Function.update_self, Function.update_self]
  · by_cases hin : sp.start ≤ q ∧ q < sp.start + sp.length
    · exact ⟨s, .inr rfl, by rw [Function.update_self]; exact hin⟩
    · rw [hpm q (by omega)] at hq
      obtain ⟨u, hu, h1, h2⟩ := hL.covered q t hq
      exact ⟨u, .inl hu, by rw [hspans u hu]; exact ⟨h1, h2⟩⟩

/-- `RecordSpan` only writes the pagemap. -/
theorem recordSpan_eq (h : PageHeap) (s : SpanId) :
    h.recordSpan s = { h with pagemap := (h.recordSpan s).pagemap } := by
  unfold recordSpan
  split_ifs <;> rfl

/-- The span `NewSpan(p, len)` makes and `RecordSpan` records, on pages that
    no span covers: the invariant holds, with the new span live and in use,
    and the free bytes and the bytes taken as they were. -/
theorem Inv.recordNewSpan (hinv : Inv b h ∅) {p len : ℕ} (hp : 1 ≤ p) (hlen : 1 ≤ len)
    (hend : p + len ≤ 2 ^ (kAddressBits - b.pageShift))
    (hfresh : ∀ q, p ≤ q → q < p + len → ¬ Covered h q) :
    Inv b ((h.newSpan p len).1.recordSpan (h.newSpan p len).2) ∅ ∧
      ((h.newSpan p len).1.recordSpan (h.newSpan p len).2).spanAllocator.Live (h.newSpan p len).2 ∧
      ((h.newSpan p len).1.recordSpan (h.newSpan p len).2).spans (h.newSpan p len).2 =
        ⟨p, len, .inUse, 0, false⟩ ∧
      heldBytes b ((h.newSpan p len).1.recordSpan (h.newSpan p len).2) ∅ = heldBytes b h ∅ ∧
      ((h.newSpan p len).1.recordSpan (h.newSpan p len).2).systemTaken = h.systemTaken := by
  set s := h.spanAllocator.new.1 with hs_def
  set h' := (h.newSpan p len).1.recordSpan (h.newSpan p len).2 with hh'
  have hsnew : ¬ h.spanAllocator.Live s := SpanAllocator.not_live_new _
  have hsp : h'.spans = Function.update h.spans s ⟨p, len, .inUse, 0, false⟩ := by
    rw [hh', recordSpan_spans, newSpan_fst_spans]
  have hlive : h'.spanAllocator.Live = fun t => h.spanAllocator.Live t ∨ t = s := by
    funext t
    rw [hh', recordSpan_spanAllocator, newSpan_fst_spanAllocator]
    exact propext (hinv.allocator.live_new t)
  have hpm : h'.pagemap =
      Function.update (Function.update h.pagemap p (some s)) (p + len - 1) (some s) := by
    rw [hh', recordSpan_pagemap, newSpan_fst_spans, newSpan_snd, newSpan_fst_pagemap,
      Function.update_self]
    dsimp only
    split_ifs with hl
    · -- `lastPage` of the span is `p + len - 1`, with no wrapping
      have hlt := pages_lt b
      have hlast : lastPage ⟨p, len, .inUse, 0, false⟩ = p + len - 1 := by
        simp only [lastPage]
        rw [Word.add_of_lt (by omega), Word.sub_of_le (by omega) (by omega)]
      rw [hlast]
    · rw [show p + len - 1 = p by omega, Function.update_idem]
  -- the rest of the heap is the heap before
  have hrest :
      h' = { h with spans := h'.spans, spanAllocator := h'.spanAllocator, pagemap := h'.pagemap } := by
    rw [hh', recordSpan_eq]
    rfl
  have hfree : ∀ t, h.spanAllocator.Live t →
      p + len ≤ (h.spans t).start ∨ (h.spans t).start + (h.spans t).length ≤ p := by
    intro t ht
    by_contra hover
    rw [not_or, not_le, not_le] at hover
    have := (hinv.layout.bounds t ht).2.1
    -- the first page of the two that lies in both
    rcases le_total p (h.spans t).start with hle | hle
    · exact hfresh (h.spans t).start hle hover.1 ⟨t, ht, le_rfl, by omega⟩
    · exact hfresh p le_rfl (by omega) ⟨t, ht, hle, hover.2⟩
  have hold : ∀ t, h.spanAllocator.Live t → t ≠ s := fun t ht e => hsnew (e ▸ ht)
  have hspt : ∀ t, h.spanAllocator.Live t → h'.spans t = h.spans t := fun t ht => by
    rw [hsp, Function.update_of_ne (hold t ht)]
  have hfreeOn : ∀ c t, FreeOn h ∅ c t → FreeOn h' ∅ c t := fun c t hf =>
    hf.of_spans (hspt t hf.live) (by rw [hlive]; exact .inl hf.live)
  have hlists : ∀ c, h'.lists c = h.lists c := fun c => by rw [hrest]; rfl
  have hsets : ∀ c, h'.sets c = h.sets c := fun c => by rw [hrest]; rfl
  have hheld : heldBytes b h' ∅ = heldBytes b h ∅ := by
    unfold heldBytes
    rw [hrest]
    rfl
  have htaken : h'.systemTaken = h.systemTaken := by
    rw [hrest]
  refine ⟨⟨?_, fun t ht => absurd ht (Finset.notMem_empty t), fun c i t ht => ?_, fun c x hx => ?_,
    fun t ht _ hloc => ?_, fun c i => ?_, fun c => ?_, ?_, ?_, ?_, htaken ▸ hinv.taken, ?_⟩,
    by rw [hlive]; exact .inr rfl, by rw [hsp, newSpan_snd, ← hs_def, Function.update_self], hheld,
    htaken⟩
  · rw [hsp, hlive, hpm]
    exact hinv.layout.record hsnew (show 1 ≤ (⟨p, len, .inUse, 0, false⟩ : Span).start from hp) hlen hend hfree
  · rw [hlists] at ht
    obtain ⟨hf, h1, h2⟩ := hinv.onList c i t ht
    rw [hspt t hf.live]
    exact ⟨hfreeOn c t hf, h1, h2⟩
  · rw [hsets] at hx
    obtain ⟨hf, h1, h2⟩ := hinv.onSet c x hx
    rw [hspt x.1 hf.live]
    exact ⟨hfreeOn c x.1 hf, h1, h2⟩
  · -- the new span is in use, so a free span is an old one
    rw [hlive] at ht
    rcases ht with ht | rfl
    · have hl := hinv.listed t ht (Finset.notMem_empty t) (hspt t ht ▸ hloc)
      unfold Listed at hl ⊢
      rw [hspt t ht, hlists, hsets]
      exact hl
    · rw [hsp, Function.update_self] at hloc
      exact absurd rfl hloc
  · rw [hlists]
    exact hinv.nodup c i
  · rw [hsets]
    refine (hinv.sorted c).imp_of_mem fun {x y} hx hy hxy => ?_
    rw [bestFitLess_iff, hspt x.1 (hinv.onSet c x hx).1.live, hspt y.1 (hinv.onSet c y hy).1.live,
      ← bestFitLess_iff]
    exact hxy
  · rw [hlists, hsets, hrest]
    exact hinv.free
  · rw [hlists, hsets, hrest]
    exact hinv.unmapped
  · rw [hheld, htaken]
    exact hinv.held
  · rw [hh', recordSpan_spanAllocator, newSpan_fst_spanAllocator]
    exact hinv.allocator.new_snd

/-! ## Growing the heap -/

variable (b) in
/-- What `GrowHeap` needs of an answer `(ptr, actual)` of
    `TCMalloc_SystemAlloc`: unless it is `nullptr`, the pages it holds, from
    `ptr >> kPageShift`, are at least one, lie within the pages the pagemap
    holds, from page `1` on, and no span of `h` covers them; and
    `TCMalloc_SystemTaken` counts its bytes without wrapping. -/
def FreshAlloc (h : PageHeap) (r : ℕ × ℕ) : Prop :=
  r.1 ≠ 0 → 1 ≤ r.1 >>> b.pageShift ∧ 1 ≤ r.2 >>> b.pageShift ∧
    r.1 >>> b.pageShift + r.2 >>> b.pageShift ≤ 2 ^ (kAddressBits - b.pageShift) ∧
    (∀ q, r.1 >>> b.pageShift ≤ q → q < r.1 >>> b.pageShift + r.2 >>> b.pageShift → ¬ Covered h q) ∧
    h.systemTaken + r.2 < 2 ^ 64

variable (b) in
/-- `h'` is `h` as far as growing goes: the invariant holds, the free bytes
    held, the pages covered and the bytes taken are those of `h`, and the
    calls to `TCMalloc_SystemAlloc` only grew. -/
structure Unchanged (h' h : PageHeap) : Prop where
  inv : Inv b h' ∅
  held : heldBytes b h' ∅ = heldBytes b h ∅
  covered : ∀ q, Covered h' q ↔ Covered h q
  systemTaken : h'.systemTaken = h.systemTaken
  calls_le : h.calls.sysAlloc ≤ h'.calls.sysAlloc

namespace Unchanged

variable {h' h'' : PageHeap}

theorem refl (hinv : Inv b h ∅) : Unchanged b h h := ⟨hinv, rfl, fun _ => Iff.rfl, rfl, le_rfl⟩

theorem trans (h2 : Unchanged b h'' h') (h1 : Unchanged b h' h) : Unchanged b h'' h :=
  ⟨h2.inv, h2.held.trans h1.held, fun q => (h2.covered q).trans (h1.covered q),
    h2.systemTaken.trans h1.systemTaken, h1.calls_le.trans h2.calls_le⟩

/-- A step that writes no field the invariant reads but the calls. -/
theorem of_same (hinv : Inv b h ∅) (hsp : h'.spans = h.spans) (hal : h'.spanAllocator = h.spanAllocator)
    (hpm : h'.pagemap = h.pagemap) (hl : ∀ c, h'.lists c = h.lists c) (hs : ∀ c, h'.sets c = h.sets c)
    (hfree : h'.stats.freeBytes = h.stats.freeBytes)
    (hunm : h'.stats.unmappedBytes = h.stats.unmappedBytes)
    (htaken : h'.systemTaken = h.systemTaken) (hcalls : h.calls.sysAlloc ≤ h'.calls.sysAlloc) :
    Unchanged b h' h := by
  refine ⟨hinv.of_same hsp hal hpm hl hs hfree hunm htaken.ge (htaken ▸ hinv.taken), ?_, fun q => ?_,
    htaken, hcalls⟩
  · simp only [heldBytes, hfree, hunm, Finset.sum_empty]
  · simp only [Covered, hal, hsp]

/-- `EnsureLimit` only releases. -/
theorem ensureLimit (hinv : Inv b h ∅) (k : ℕ) (w : Bool) :
    Unchanged b (PageHeap.ensureLimit b env h k w).1 h := by
  unfold PageHeap.ensureLimit
  dsimp only
  split_ifs
  · exact refl hinv
  · have hR := @Released.releaseAtLeastNPages b env h hinv
      (Word.sub 64 (Word.add 64 (Word.sub 64 (h.systemTaken >>> b.pageShift)
        (h.stats.unmappedBytes >>> b.pageShift)) k)
        ((env.heapLimitMb * 1024 * 1024 % 2 ^ 64) >>> b.pageShift))
    exact ⟨hR.inv, hR.held, hR.covered, hR.systemTaken, hR.sysAlloc.ge⟩
  · exact refl hinv

end Unchanged

/-- `TCMalloc_SystemAlloc` that returns `nullptr` changes nothing but the
    count of calls. -/
theorem Unchanged.systemAlloc_null (hinv : Inv b h ∅) {size : ℕ}
    (h0 : (systemAlloc b env h size).2.1 = 0) : Unchanged b (systemAlloc b env h size).1 h := by
  unfold systemAlloc at h0 ⊢
  rcases hs : env.sysAlloc h.calls.sysAlloc size with ⟨ptr, actual⟩
  rw [hs] at h0
  dsimp only at h0 ⊢
  split_ifs at h0 ⊢ with hover hptr
  · exact Unchanged.refl hinv
  · exact Unchanged.of_same hinv rfl rfl rfl (fun _ => rfl) (fun _ => rfl) rfl rfl rfl (Nat.le_succ _)
  · exact absurd h0 hptr

/-- `TCMalloc_SystemAlloc` that returns memory returns the system's answer at
    the call, and counts its bytes in `TCMalloc_SystemTaken`. -/
theorem systemAlloc_of_ne_zero {size : ℕ} (h0 : (systemAlloc b env h size).2.1 ≠ 0) :
    env.sysAlloc h.calls.sysAlloc size = ((systemAlloc b env h size).2.1, (systemAlloc b env h size).2.2) ∧
      (systemAlloc b env h size).1 = { h with
        calls := { h.calls with sysAlloc := h.calls.sysAlloc + 1 },
        systemTaken := Word.add 64 h.systemTaken (systemAlloc b env h size).2.2 } := by
  unfold systemAlloc at h0 ⊢
  rcases hs : env.sysAlloc h.calls.sysAlloc size with ⟨ptr, actual⟩
  rw [hs] at h0
  dsimp only at h0 ⊢
  split_ifs at h0 ⊢ with hover hptr
  · exact absurd rfl h0
  · exact absurd rfl h0
  · exact ⟨rfl, rfl⟩

variable (b) in
/-- The result `r` of a call holds memory fresh for `h`, and the heap `r.1`
    is `h` but for the bytes taken, which count that memory. -/
structure Got (h : PageHeap) (r : PageHeap × ℕ × ℕ) : Prop where
  ne_zero : r.2.1 ≠ 0
  fresh : FreshAlloc b h (r.2.1, r.2.2)
  inv : Inv b r.1 ∅
  held : heldBytes b r.1 ∅ = heldBytes b h ∅
  covered : ∀ q, Covered r.1 q ↔ Covered h q
  systemTaken : r.1.systemTaken = h.systemTaken + r.2.2

/-- `TCMalloc_SystemAlloc` on a heap that is `h` as far as growing goes, when
    the system's answer is fresh for `h`. -/
theorem Unchanged.systemAlloc_fresh {h' : PageHeap} (hu : Unchanged b h' h) {size : ℕ}
    (hfresh : FreshAlloc b h (env.sysAlloc h'.calls.sysAlloc size)) :
    (systemAlloc b env h' size).2.1 = 0 ∧ Unchanged b (systemAlloc b env h' size).1 h ∨
      Got b h (systemAlloc b env h' size) := by
  by_cases h0 : (systemAlloc b env h' size).2.1 = 0
  · exact .inl ⟨h0, (Unchanged.systemAlloc_null hu.inv h0).trans hu⟩
  obtain ⟨hanswer, heq⟩ := systemAlloc_of_ne_zero h0
  rw [hanswer] at hfresh
  have hlt := (hfresh h0).2.2.2.2
  -- the bytes taken do not wrap
  have hword : Word.add 64 h'.systemTaken (systemAlloc b env h' size).2.2 =
      h.systemTaken + (systemAlloc b env h' size).2.2 := by
    rw [hu.systemTaken]
    exact Word.add_of_lt hlt
  rw [hword] at heq
  refine .inr ⟨h0, hfresh, ?_, ?_, fun q => ?_, by rw [heq]⟩
  · rw [heq]
    exact hu.inv.of_same rfl rfl rfl (fun _ => rfl) (fun _ => rfl) rfl rfl
      (show h'.systemTaken ≤ h.systemTaken + _ by rw [hu.systemTaken]; omega) hlt
  · rw [heq, ← hu.held]
    rfl
  · rw [heq, ← hu.covered q]
    rfl

/-- `EnsureLimit` and `TCMalloc_SystemAlloc` for `k` pages. -/
theorem Unchanged.allocWithinLimit {h' : PageHeap} (hu : Unchanged b h' h) (k : ℕ)
    (hfresh : ∀ i, h.calls.sysAlloc ≤ i → FreshAlloc b h (env.sysAlloc i ((k <<< b.pageShift) % 2 ^ 64))) :
    (PageHeap.allocWithinLimit b env h' k).2.1 = 0 ∧ Unchanged b (PageHeap.allocWithinLimit b env h' k).1 h ∨
      Got b h (PageHeap.allocWithinLimit b env h' k) := by
  have hu₁ : Unchanged b (PageHeap.ensureLimit b env h' k true).1 h := (Unchanged.ensureLimit hu.inv k true).trans hu
  unfold PageHeap.allocWithinLimit
  rcases he : PageHeap.ensureLimit b env h' k true with ⟨h₁, ok⟩
  rw [he] at hu₁
  cases ok
  · exact .inl ⟨rfl, hu₁⟩
  · exact hu₁.systemAlloc_fresh (hfresh _ hu₁.calls_le)

/-- The calls to the system in `GrowHeap`: no memory came and the heap is as
    it was, or memory fresh for `h` came, from a call `h` had not made yet,
    for `ask` pages or for `n`. -/
theorem growAlloc_spec (hinv : Inv b h ∅) (n ask : ℕ)
    (hfresh : ∀ i k, h.calls.sysAlloc ≤ i → (k = ask ∨ k = n) →
      FreshAlloc b h (env.sysAlloc i ((k <<< b.pageShift) % 2 ^ 64))) :
    (growAlloc b env h n ask).2.1 = 0 ∧ Unchanged b (growAlloc b env h n ask).1 h ∨
      Got b h (growAlloc b env h n ask) := by
  unfold growAlloc
  rcases (Unchanged.refl hinv).allocWithinLimit ask (fun i hi => hfresh i ask hi (.inl rfl)) with
    ⟨h0, hu⟩ | hgot
  · -- nothing for `ask` pages: the second try, for `n`
    rcases hr : PageHeap.allocWithinLimit b env h ask with ⟨h₁, ptr, actual⟩
    rw [hr] at h0 hu
    dsimp only at h0 hu ⊢
    split_ifs with hn
    · exact hu.allocWithinLimit n (fun i hi => hfresh i n hi (.inr rfl))
    · exact .inl ⟨h0, hu⟩
  · rcases hr : PageHeap.allocWithinLimit b env h ask with ⟨h₁, ptr, actual⟩
    rw [hr] at hgot
    dsimp only
    rw [if_neg fun hc => hgot.ne_zero hc.1]
    exact .inr hgot

/-- The second half of `GrowHeap`, on memory whose pages no span covers and
    whose bytes `TCMalloc_SystemTaken` counts: the new span is deleted into
    the free lists, and the invariant holds. -/
theorem Inv.growInstall (hinv : Inv b h ∅) {ptr actual : ℕ} (hp : 1 ≤ ptr >>> b.pageShift)
    (hlen : 1 ≤ actual >>> b.pageShift)
    (hend : ptr >>> b.pageShift + actual >>> b.pageShift ≤ 2 ^ (kAddressBits - b.pageShift))
    (hcov : ∀ q, ptr >>> b.pageShift ≤ q → q < ptr >>> b.pageShift + actual >>> b.pageShift →
      ¬ Covered h q)
    (hheld : heldBytes b h ∅ + actual ≤ h.systemTaken) :
    Inv b (PageHeap.growInstall b env h ptr actual).1 ∅ := by
  -- reducing `pagemap_.Ensure` would evaluate its bound: it is rewritten and then named
  rw [PageHeap.growInstall]
  -- the counters and the pagemap's leaves: nothing the invariant reads
  have hu₁ : Unchanged b { h with stats := { h.stats with
      systemBytes := Word.add 64 h.stats.systemBytes (bytes b (actual >>> b.pageShift)),
      committedBytes := Word.add 64 h.stats.committedBytes (bytes b (actual >>> b.pageShift)) } } h :=
    Unchanged.of_same hinv rfl rfl rfl (fun _ => rfl) (fun _ => rfl) rfl rfl rfl le_rfl
  generalize hens : pagemapEnsure b env { h with stats := { h.stats with
      systemBytes := Word.add 64 h.stats.systemBytes (bytes b (actual >>> b.pageShift)),
      committedBytes := Word.add 64 h.stats.committedBytes (bytes b (actual >>> b.pageShift)) } }
      (ptr >>> b.pageShift - 1) (actual >>> b.pageShift + 2) = ens
  have hu₂ : Unchanged b ens.1 h := by
    refine Unchanged.trans ?_ hu₁
    rw [← hens]
    unfold pagemapEnsure
    split_ifs
    · exact Unchanged.refl hu₁.inv
    · exact Unchanged.of_same hu₁.inv rfl rfl rfl (fun _ => rfl) (fun _ => rfl) rfl rfl rfl le_rfl
  rcases ens with ⟨h₂, ok⟩
  cases ok
  · exact hu₂.inv
  · obtain ⟨hinv₃, hlive₃, hspan₃, hheld₃, htaken₃⟩ := hu₂.inv.recordNewSpan hp hlen hend
      fun q h1 h2 hc => hcov q h1 h2 ((hu₂.covered q).mp hc)
    rcases hns : h₂.newSpan (ptr >>> b.pageShift) (actual >>> b.pageShift) with ⟨h₃, s⟩
    rw [hns] at hinv₃ hlive₃ hspan₃ hheld₃ htaken₃
    rw [if_pos (show (h₂, true).2 = true from rfl)]
    dsimp only
    -- the span holds whole pages of the memory, so at most its bytes
    have hpages : (actual >>> b.pageShift) * 2 ^ b.pageShift ≤ actual := by
      rw [Nat.shiftRight_eq_div_pow]
      exact Nat.div_mul_le_self _ _
    refine hinv₃.deleteLocked hlive₃ (by rw [hspan₃]) ?_
    rw [hspan₃, hheld₃, htaken₃, hu₂.held, hu₂.systemTaken]
    dsimp only
    omega

/-- `GrowHeap(n)` keeps the invariant, when the system's answers to the
    calls it can make, at calls the heap has not made yet and for the
    `max(n, kMaxPages)` or the `n` pages it asks, are fresh memory. -/
theorem Inv.growHeap (hinv : Inv b h ∅) (n : ℕ)
    (hfresh : ∀ i k, h.calls.sysAlloc ≤ i → (k = max n b.kMaxPages ∨ k = n) →
      FreshAlloc b h (env.sysAlloc i ((k <<< b.pageShift) % 2 ^ 64))) :
    Inv b (PageHeap.growHeap b env h n).1 ∅ := by
  rw [PageHeap.growHeap]
  by_cases hmax : b.kMaxValidPages < n
  · rw [if_pos hmax]
    exact hinv
  rw [if_neg hmax]
  -- `ask`, the pages asked first, is `max(n, kMaxPages)`
  have hask : (if b.kMaxPages < n then n else b.kMaxPages) = max n b.kMaxPages := by
    split_ifs <;> omega
  generalize (if b.kMaxPages < n then n else b.kMaxPages) = ask at hask
  rcases hr : growAlloc b env h n ask with ⟨h₁, ptr, actual⟩
  rcases @growAlloc_spec b env h hinv n ask (fun i k hi hk => hfresh i k hi (hask ▸ hk)) with
    ⟨h0, hu⟩ | hgot
  · rw [hr] at h0 hu
    dsimp only at h0 hu ⊢
    rw [if_pos h0]
    exact hu.inv
  · rw [hr] at hgot
    dsimp only at hgot ⊢
    rw [if_neg hgot.ne_zero]
    obtain ⟨hp, hlen, hend, hcov, -⟩ := hgot.fresh hgot.ne_zero
    refine hgot.inv.growInstall hp hlen hend (fun q h1 h2 hc => hcov q h1 h2 ((hgot.covered q).mp hc)) ?_
    rw [hgot.held, hgot.systemTaken]
    dsimp only
    have := hinv.held
    omega

/-! ## A grown heap -/

/-- The system of `sbrkEnv`, with `FLAGS_tcmalloc_release_rate` at zero. -/
def keepEnv : Env := { sbrkEnv with releaseDisabled := true }

/-- The heap after `GrowHeap(1)` from the constructor: the system gave
    `kMaxPages` pages, which went to a normal free list as one span. -/
def grownHeap : PageHeap := (PageHeap.growHeap Build.default keepEnv (PageHeap.init Build.default 1) 1).1

theorem not_covered_init (b : Build) (n q : ℕ) : ¬ Covered (PageHeap.init b n) q :=
  fun ⟨_, hs, _⟩ => SpanAllocator.not_live_init _ hs

/-- The memory of `sbrkEnv` is fresh for the constructor, at its first call
    (1 MiB below 16 TiB) as at the next ones (16 TiB), for either request of
    `GrowHeap(1)`. -/
theorem grownHeap_inv : Inv Build.default grownHeap ∅ := by
  refine Inv.growHeap (Inv.init 1) 1 fun i k _ hk _ => ?_
  have hk' : k = 128 ∨ k = 1 := by
    rcases hk with rfl | rfl
    · exact .inl rfl
    · exact .inr rfl
  by_cases hi : i = 0
  · rcases hk' with rfl | rfl <;> simp only [keepEnv, sbrkEnv, hi, if_true] <;>
      exact ⟨by decide, by decide, by decide, fun q _ _ => not_covered_init _ _ q, by decide⟩
  · rcases hk' with rfl | rfl <;> simp only [keepEnv, sbrkEnv, hi, if_false] <;>
      exact ⟨by decide, by decide, by decide, fun q _ _ => not_covered_init _ _ q, by decide⟩

/-! ## `ReleaseAtLeastNPages` -/

/-- `ReleaseAtLeastNPages(num)` from a heap that keeps the invariant: it
    ends having released `num` pages, or with no normal span left
    (`free_bytes == 0`), or after a failed `TCMalloc_SystemRelease`;
    `free_bytes` lost at least the bytes of the pages it returns, and they
    all went to `unmapped_bytes`; the pages covered by spans and the
    invariant stay. The fuel of `free_bytes + 1` rounds is not what ends it:
    any more gives the same result. -/
theorem releaseAtLeastNPages_correct (hinv : Inv b h ∅) (num : ℕ) :
    (num ≤ (releaseAtLeastNPages b env h num).2 ∨
        ((releaseAtLeastNPages b env h num).1.stats.freeBytes = 0 ∧
          ∀ s, (releaseAtLeastNPages b env h num).1.spanAllocator.Live s →
            ((releaseAtLeastNPages b env h num).1.spans s).location ≠ .onNormalFreelist) ∨
        h.calls.releaseFailures < (releaseAtLeastNPages b env h num).1.calls.releaseFailures) ∧
      (releaseAtLeastNPages b env h num).1.stats.freeBytes +
          (releaseAtLeastNPages b env h num).2 * 2 ^ b.pageShift ≤ h.stats.freeBytes ∧
      (releaseAtLeastNPages b env h num).1.stats.unmappedBytes +
          (releaseAtLeastNPages b env h num).1.stats.freeBytes =
        h.stats.unmappedBytes + h.stats.freeBytes ∧
      (∀ p, Covered (releaseAtLeastNPages b env h num).1 p ↔ Covered h p) ∧
      Inv b (releaseAtLeastNPages b env h num).1 ∅ ∧
      ∀ fuel, h.stats.freeBytes < fuel →
        releaseLoop b env num fuel h 0 = releaseAtLeastNPages b env h num := by
  have hb : 0 * 2 ^ b.pageShift + h.stats.freeBytes < 2 ^ 64 := by
    have := hinv.freeBytes_le
    omega
  obtain ⟨hR, hend⟩ := @releaseLoop_spec b env num (h.stats.freeBytes + 1) h
    (releaseAtLeastNPages b env h num).1 0 (releaseAtLeastNPages b env h num).2 hinv hb rfl
  refine ⟨?_, ?_, ?_, hR.covered, hR.inv, fun fuel hf => ?_⟩
  · rcases hend (Nat.lt_succ_self _) with hnum | hzero | hfail
    · exact Or.inl hnum
    · exact Or.inr (Or.inl ⟨hzero, fun s hs => hR.inv.not_normal_of_freeBytes hzero hs⟩)
    · exact Or.inr (Or.inr hfail)
  · simpa using hR.freeBytes
  · -- the free bytes the heap holds are the two counters, with no hole
    have := hR.held
    simp only [heldBytes, Finset.sum_empty, Nat.add_zero] at this
    omega
  · obtain ⟨m, rfl⟩ := Nat.exists_eq_add_of_le (Nat.succ_le_of_lt hf)
    exact releaseLoop_add num _ hinv hb (Nat.lt_succ_self _) m

/-- From `grownHeap`, `ReleaseAtLeastNPages(1)` releases the whole span of
    128 pages. -/
theorem releaseAtLeastNPages_correct_grown :
    Inv Build.default grownHeap ∅ ∧ (grownHeap.spans 0).location = .onNormalFreelist ∧
      (releaseAtLeastNPages Build.default keepEnv grownHeap 1).2 = 128 ∧
      ((1 ≤ (releaseAtLeastNPages Build.default keepEnv grownHeap 1).2 ∨
          ((releaseAtLeastNPages Build.default keepEnv grownHeap 1).1.stats.freeBytes = 0 ∧
            ∀ s, (releaseAtLeastNPages Build.default keepEnv grownHeap 1).1.spanAllocator.Live s →
              ((releaseAtLeastNPages Build.default keepEnv grownHeap 1).1.spans s).location ≠
                .onNormalFreelist) ∨
          grownHeap.calls.releaseFailures <
            (releaseAtLeastNPages Build.default keepEnv grownHeap 1).1.calls.releaseFailures) ∧
        (releaseAtLeastNPages Build.default keepEnv grownHeap 1).1.stats.freeBytes +
            (releaseAtLeastNPages Build.default keepEnv grownHeap 1).2 * 2 ^ Build.default.pageShift ≤
          grownHeap.stats.freeBytes ∧
        (releaseAtLeastNPages Build.default keepEnv grownHeap 1).1.stats.unmappedBytes +
            (releaseAtLeastNPages Build.default keepEnv grownHeap 1).1.stats.freeBytes =
          grownHeap.stats.unmappedBytes + grownHeap.stats.freeBytes ∧
        (∀ p, Covered (releaseAtLeastNPages Build.default keepEnv grownHeap 1).1 p ↔ Covered grownHeap p) ∧
        Inv Build.default (releaseAtLeastNPages Build.default keepEnv grownHeap 1).1 ∅ ∧
        ∀ fuel, grownHeap.stats.freeBytes < fuel →
          releaseLoop Build.default keepEnv 1 fuel grownHeap 0 =
            releaseAtLeastNPages Build.default keepEnv grownHeap 1) :=
  ⟨grownHeap_inv, by decide +kernel, by decide +kernel, releaseAtLeastNPages_correct grownHeap_inv 1⟩

end Gperftools.PageHeap
