import Gperftools.PageHeap.Inv

/-!
# Coalescing and releasing keep the invariant

`MergeIntoFreeList(span)` is called with `span` taken off the lists, a hole
of the invariant (`Inv b h {span}`). It takes in the free neighbours that can
merge, each taken off its list by `CheckAndHandlePreMerge` (a second hole)
and deleted (`Inv.mergePrev`, `Inv.mergeNext`), and puts the result on its
list: the invariant holds again, with no hole (`Inv.mergeIntoFreeList`).
The pages covered by spans stay the same, and so do the free bytes the heap
holds, which only move between `free_bytes`, `unmapped_bytes` and the holes.

`ReleaseSpan` (`Inv.releaseSpan`) builds on it: when `TCMalloc_SystemRelease`
works, the span moves from the normal lists to the returned ones and
`free_bytes` loses at least its bytes; when it fails, nothing but the state
of the system allocator and the count of failures changes.

Between the steps, `Keeps h' h` says what no step touches (the bytes taken
from the system, the mode, the release index), and that failed calls to the
system are only added; `Frame h' h` says that only the system allocator's
state, the count of failures and the committed bytes changed.
-/

namespace Gperftools.PageHeap

variable {b : Build} {env : Env}

/-! ## What the steps leave alone -/

/-- What no step of coalescing or releasing changes, and the failed calls
    to `TCMalloc_SystemRelease`, which are only added. -/
structure Keeps (h' h : PageHeap) : Prop where
  systemTaken : h'.systemTaken = h.systemTaken
  aggressiveDecommit : h'.aggressiveDecommit = h.aggressiveDecommit
  releaseIndex : h'.releaseIndex = h.releaseIndex
  sysAlloc : h'.calls.sysAlloc = h.calls.sysAlloc
  failures_le : h.calls.releaseFailures ≤ h'.calls.releaseFailures

/-- `h'` is `h` but for the system allocator's state, the counters of calls
    and the committed bytes. -/
structure Frame (h' h : PageHeap) : Prop extends Keeps h' h where
  spans : h'.spans = h.spans
  spanAllocator : h'.spanAllocator = h.spanAllocator
  pagemap : h'.pagemap = h.pagemap
  freeNormal : h'.freeNormal = h.freeNormal
  freeReturned : h'.freeReturned = h.freeReturned
  largeNormal : h'.largeNormal = h.largeNormal
  largeReturned : h'.largeReturned = h.largeReturned
  freeBytes : h'.stats.freeBytes = h.stats.freeBytes
  unmappedBytes : h'.stats.unmappedBytes = h.stats.unmappedBytes

theorem Keeps.refl (h : PageHeap) : Keeps h h := ⟨rfl, rfl, rfl, rfl, le_rfl⟩

theorem Keeps.trans {h h' h'' : PageHeap} (h2 : Keeps h'' h') (h1 : Keeps h' h) : Keeps h'' h :=
  ⟨h2.systemTaken.trans h1.systemTaken, h2.aggressiveDecommit.trans h1.aggressiveDecommit,
    h2.releaseIndex.trans h1.releaseIndex, h2.sysAlloc.trans h1.sysAlloc,
    h1.failures_le.trans h2.failures_le⟩

theorem Frame.refl (h : PageHeap) : Frame h h :=
  ⟨Keeps.refl h, rfl, rfl, rfl, rfl, rfl, rfl, rfl, rfl, rfl⟩

/-- The invariant only reads what a frame keeps. -/
theorem Inv.of_frame {h h' : PageHeap} {H : Finset SpanId} (hinv : Inv b h H) (hf : Frame h' h) :
    Inv b h' H := by
  refine hinv.of_holes (by rw [hf.spans, hf.spanAllocator, hf.pagemap]; exact hinv.layout)
    subset_rfl (fun t _ => by rw [hf.spanAllocator]) (fun t ht ht' => absurd ht ht')
    (fun t ht => by rw [hf.spanAllocator]; exact hinv.holes_live t ht)
    (fun t _ => by rw [hf.spans]) (fun c => ?_) (fun c => ?_) hf.freeBytes hf.unmappedBytes
    hf.systemTaken.ge (hf.systemTaken ▸ hinv.taken) (by rw [hf.spans]) (hf.spanAllocator ▸ hinv.allocator)
  · cases c <;> simp [lists, hf.freeNormal, hf.freeReturned]
  · cases c <;> simp [sets, hf.largeNormal, hf.largeReturned]

theorem keeps_removeFromFreeList (h : PageHeap) (s : SpanId) :
    Keeps (removeFromFreeList b h s) h := by
  rw [removeFromFreeList_eq]
  exact ⟨rfl, rfl, rfl, rfl, le_rfl⟩

theorem keeps_setSpan (h : PageHeap) (s : SpanId) (sp : Span) : Keeps (h.setSpan s sp) h :=
  ⟨rfl, rfl, rfl, rfl, le_rfl⟩

theorem keeps_prependToFreeList (h : PageHeap) (s : SpanId) :
    Keeps (prependToFreeList b h s) h := by
  rw [prependToFreeList_eq]
  exact ⟨rfl, rfl, rfl, rfl, le_rfl⟩

/-- `DecommitSpan` calls `TCMalloc_SystemRelease` once, on the span's
    bytes, counts it if it failed, and changes nothing but the committed
    bytes. -/
theorem decommitSpan_spec (h : PageHeap) (s : SpanId) :
    Frame (decommitSpan b env h s).1 h ∧
      (decommitSpan b env h s).2 = (SystemAlloc.systemRelease env.system h.system
        (((h.spans s).start <<< b.pageShift) % 2 ^ 64) (bytes b (h.spans s).length)
        env.adviseAttempts).2 ∧
      (decommitSpan b env h s).1.calls.releaseFailures =
        if (decommitSpan b env h s).2 then h.calls.releaseFailures else h.calls.releaseFailures + 1 := by
  unfold decommitSpan systemRelease
  rcases SystemAlloc.systemRelease env.system h.system (((h.spans s).start <<< b.pageShift) % 2 ^ 64)
    (bytes b (h.spans s).length) env.adviseAttempts with ⟨st, rv⟩
  cases rv
  · exact ⟨⟨⟨rfl, rfl, rfl, rfl, Nat.le_succ _⟩, rfl, rfl, rfl, rfl, rfl, rfl, rfl, rfl, rfl⟩, rfl, rfl⟩
  · exact ⟨⟨⟨rfl, rfl, rfl, rfl, le_rfl⟩, rfl, rfl, rfl, rfl, rfl, rfl, rfl, rfl, rfl⟩, rfl, rfl⟩

/-! ## Taking in a neighbour -/

theorem getDescriptor_of_lt {h : PageHeap} {p : ℕ} (hp : p < 2 ^ (kAddressBits - b.pageShift)) :
    h.getDescriptor b p = h.pagemap p := by
  unfold getDescriptor
  rw [if_neg]
  rw [Nat.shiftRight_eq_div_pow, Nat.div_eq_of_lt hp]
  exact lt_irrefl 0

theorem getDescriptor_of_ge {h : PageHeap} {p : ℕ} (hp : 2 ^ (kAddressBits - b.pageShift) ≤ p) :
    h.getDescriptor b p = none := by
  unfold getDescriptor
  rw [if_pos]
  rw [Nat.shiftRight_eq_div_pow]
  exact Nat.div_pos hp (Nat.two_pow_pos _)

variable {h : PageHeap} {H : Finset SpanId} {s o : SpanId}

theorem mergePrev_none (h : PageHeap) (s : SpanId) : mergePrev h s none = h := rfl

theorem mergeNext_none (h : PageHeap) (s : SpanId) : mergeNext h s none = h := rfl

theorem mergePrev_spans (h : PageHeap) (s o : SpanId) :
    (mergePrev h s (some o)).spans = Function.update h.spans s { h.spans s with
      start := Word.sub 64 (h.spans s).start (h.spans o).length,
      length := Word.add 64 (h.spans s).length (h.spans o).length } := rfl

theorem mergePrev_spanAllocator (h : PageHeap) (s o : SpanId) :
    (mergePrev h s (some o)).spanAllocator = h.spanAllocator.delete o := rfl

theorem mergePrev_pagemap (h : PageHeap) (s o : SpanId) :
    (mergePrev h s (some o)).pagemap =
      Function.update h.pagemap (Word.sub 64 (h.spans s).start (h.spans o).length) (some s) := by
  simp [mergePrev, deleteSpan]

theorem keeps_mergePrev (h : PageHeap) (s : SpanId) (prev : Option SpanId) :
    Keeps (mergePrev h s prev) h := by
  cases prev
  · exact Keeps.refl h
  · exact ⟨rfl, rfl, rfl, rfl, le_rfl⟩

theorem mergeNext_spans (h : PageHeap) (s o : SpanId) :
    (mergeNext h s (some o)).spans = Function.update h.spans s { h.spans s with
      length := Word.add 64 (h.spans s).length (h.spans o).length } := rfl

theorem mergeNext_spanAllocator (h : PageHeap) (s o : SpanId) :
    (mergeNext h s (some o)).spanAllocator = h.spanAllocator.delete o := rfl

theorem mergeNext_pagemap (h : PageHeap) (s o : SpanId) :
    (mergeNext h s (some o)).pagemap =
      Function.update h.pagemap (lastPage { h.spans s with
        length := Word.add 64 (h.spans s).length (h.spans o).length }) (some s) := by
  simp [mergeNext, deleteSpan]

theorem keeps_mergeNext (h : PageHeap) (s : SpanId) (next : Option SpanId) :
    Keeps (mergeNext h s next) h := by
  cases next
  · exact Keeps.refl h
  · exact ⟨rfl, rfl, rfl, rfl, le_rfl⟩

/-- The merge of the span `o` before `s`: `s` starts where `o` did. -/
theorem Inv.mergePrev (hinv : Inv b h (insert o H)) (hs : s ∈ H) (ho : o ∉ H)
    (hadj : (h.spans o).start + (h.spans o).length = (h.spans s).start) :
    Inv b (PageHeap.mergePrev h s (some o)) H ∧
      heldBytes b (PageHeap.mergePrev h s (some o)) H = heldBytes b h (insert o H) ∧
      (∀ p, Covered (PageHeap.mergePrev h s (some o)) p ↔ Covered h p) ∧
      ((PageHeap.mergePrev h s (some o)).spans s).start = (h.spans o).start ∧
      ((PageHeap.mergePrev h s (some o)).spans s).length = (h.spans s).length + (h.spans o).length := by
  have hne : o ≠ s := fun he => ho (he ▸ hs)
  have hls := hinv.holes_live s (Finset.mem_insert_of_mem hs)
  have hlo := hinv.holes_live o (Finset.mem_insert_self o H)
  obtain ⟨-, hs2, hs3⟩ := hinv.layout.bounds s hls
  have hlt := pages_lt b
  have hsub : Word.sub 64 (h.spans s).start (h.spans o).length = (h.spans o).start := by
    rw [Word.sub_of_le (by omega) (by omega)]
    omega
  have hadd : Word.add 64 (h.spans s).length (h.spans o).length =
      (h.spans s).length + (h.spans o).length := Word.add_of_lt (by omega)
  have hsp := mergePrev_spans h s o
  rw [hsub, hadd] at hsp
  have hal := mergePrev_spanAllocator h s o
  have hpm := mergePrev_pagemap h s o
  rw [hsub] at hpm
  have hlayout : Layout b (PageHeap.mergePrev h s (some o)).spans
      (PageHeap.mergePrev h s (some o)).spanAllocator.Live
      (PageHeap.mergePrev h s (some o)).pagemap := by
    rw [hsp, hal, hpm, SpanAllocator.live_delete_eq]
    exact hinv.layout.joinPrev hls hlo hne hadj rfl rfl
  have hself : ((PageHeap.mergePrev h s (some o)).spans s).start = (h.spans o).start ∧
      ((PageHeap.mergePrev h s (some o)).spans s).length =
        (h.spans s).length + (h.spans o).length := by
    rw [hsp, Function.update_self]
    exact ⟨rfl, rfl⟩
  have hheld : ∑ t ∈ H, ((PageHeap.mergePrev h s (some o)).spans t).length * 2 ^ b.pageShift =
      ∑ t ∈ insert o H, (h.spans t).length * 2 ^ b.pageShift := by
    have hsum := sum_holes_update hs (PageHeap.mergePrev h s (some o)).spans h.spans
      (fun t ht => by rw [hsp, Function.update_of_ne ht]) (2 ^ b.pageShift)
    rw [hself.2, Nat.add_mul] at hsum
    rw [Finset.sum_insert ho]
    omega
  refine ⟨hinv.of_holes hlayout (Finset.subset_insert o H) (fun t ht => ?_) (fun t ht ht' => ?_)
      (fun t ht => ?_) (fun t ht => ?_) (fun c => rfl) (fun c => rfl) rfl rfl le_rfl hinv.taken hheld
      (hal ▸ hinv.allocator.delete hlo),
    ?_, covered_join hsp hal hls hlo hne (fun p => ?_), ?_, ?_⟩
  · rw [hal, SpanAllocator.live_delete]
    refine ⟨fun h' => h'.1, fun h' => ⟨h', ?_⟩⟩
    rintro rfl
    exact ht (Finset.mem_insert_self _ H)
  · rcases Finset.mem_insert.1 ht with rfl | ht
    · rw [hal, SpanAllocator.live_delete]
      exact fun h' => h'.2 rfl
    · exact absurd ht ht'
  · rw [hal, SpanAllocator.live_delete]
    exact ⟨hinv.holes_live t (Finset.mem_insert_of_mem ht), fun he => ho (he ▸ ht)⟩
  · have hts : t ≠ s := by
      rintro rfl
      exact ht (Finset.mem_insert_of_mem hs)
    rw [hsp, Function.update_of_ne hts]
  · unfold heldBytes
    rw [hheld]
    rfl
  · dsimp only
    omega
  · exact hself.1
  · exact hself.2

/-- The merge of the span `o` after `s`: `s` ends where `o` did. -/
theorem Inv.mergeNext (hinv : Inv b h (insert o H)) (hs : s ∈ H) (ho : o ∉ H)
    (hadj : (h.spans s).start + (h.spans s).length = (h.spans o).start) :
    Inv b (PageHeap.mergeNext h s (some o)) H ∧
      heldBytes b (PageHeap.mergeNext h s (some o)) H = heldBytes b h (insert o H) ∧
      (∀ p, Covered (PageHeap.mergeNext h s (some o)) p ↔ Covered h p) ∧
      ((PageHeap.mergeNext h s (some o)).spans s).start = (h.spans s).start ∧
      ((PageHeap.mergeNext h s (some o)).spans s).length = (h.spans s).length + (h.spans o).length := by
  have hne : o ≠ s := fun he => ho (he ▸ hs)
  have hls := hinv.holes_live s (Finset.mem_insert_of_mem hs)
  have hlo := hinv.holes_live o (Finset.mem_insert_self o H)
  obtain ⟨-, hs2, -⟩ := hinv.layout.bounds s hls
  obtain ⟨-, ho2, ho3⟩ := hinv.layout.bounds o hlo
  have hlt := pages_lt b
  have hadd : Word.add 64 (h.spans s).length (h.spans o).length =
      (h.spans s).length + (h.spans o).length := Word.add_of_lt (by omega)
  have hlast : lastPage { h.spans s with length := (h.spans s).length + (h.spans o).length } =
      (h.spans o).start + (h.spans o).length - 1 := by
    unfold lastPage
    rw [Word.add_of_lt (by dsimp only; omega), Word.sub_of_le (by dsimp only; omega) (by dsimp only; omega)]
    dsimp only
    omega
  have hsp := mergeNext_spans h s o
  rw [hadd] at hsp
  have hal := mergeNext_spanAllocator h s o
  have hpm := mergeNext_pagemap h s o
  rw [hadd, hlast] at hpm
  have hlayout : Layout b (PageHeap.mergeNext h s (some o)).spans
      (PageHeap.mergeNext h s (some o)).spanAllocator.Live
      (PageHeap.mergeNext h s (some o)).pagemap := by
    rw [hsp, hal, hpm, SpanAllocator.live_delete_eq]
    exact hinv.layout.joinNext hls hlo hne hadj rfl rfl
  have hself : ((PageHeap.mergeNext h s (some o)).spans s).start = (h.spans s).start ∧
      ((PageHeap.mergeNext h s (some o)).spans s).length =
        (h.spans s).length + (h.spans o).length := by
    rw [hsp, Function.update_self]
    exact ⟨rfl, rfl⟩
  have hheld : ∑ t ∈ H, ((PageHeap.mergeNext h s (some o)).spans t).length * 2 ^ b.pageShift =
      ∑ t ∈ insert o H, (h.spans t).length * 2 ^ b.pageShift := by
    have hsum := sum_holes_update hs (PageHeap.mergeNext h s (some o)).spans h.spans
      (fun t ht => by rw [hsp, Function.update_of_ne ht]) (2 ^ b.pageShift)
    rw [hself.2, Nat.add_mul] at hsum
    rw [Finset.sum_insert ho]
    omega
  refine ⟨hinv.of_holes hlayout (Finset.subset_insert o H) (fun t ht => ?_) (fun t ht ht' => ?_)
      (fun t ht => ?_) (fun t ht => ?_) (fun c => rfl) (fun c => rfl) rfl rfl le_rfl hinv.taken hheld
      (hal ▸ hinv.allocator.delete hlo),
    ?_, covered_join hsp hal hls hlo hne (fun p => ?_), ?_, ?_⟩
  · rw [hal, SpanAllocator.live_delete]
    refine ⟨fun h' => h'.1, fun h' => ⟨h', ?_⟩⟩
    rintro rfl
    exact ht (Finset.mem_insert_self _ H)
  · rcases Finset.mem_insert.1 ht with rfl | ht
    · rw [hal, SpanAllocator.live_delete]
      exact fun h' => h'.2 rfl
    · exact absurd ht ht'
  · rw [hal, SpanAllocator.live_delete]
    exact ⟨hinv.holes_live t (Finset.mem_insert_of_mem ht), fun he => ho (he ▸ ht)⟩
  · have hts : t ≠ s := by
      rintro rfl
      exact ht (Finset.mem_insert_of_mem hs)
    rw [hsp, Function.update_of_ne hts]
  · unfold heldBytes
    rw [hheld]
    rfl
  · dsimp only
    omega
  · exact hself.1
  · exact hself.2

/-! ## Checking a neighbour -/

theorem Frame.heldBytes {h h' : PageHeap} (hf : Frame h' h) (H : Finset SpanId) :
    heldBytes b h' H = heldBytes b h H := by
  unfold PageHeap.heldBytes
  rw [hf.freeBytes, hf.unmappedBytes, hf.spans]

/-- Taking a free span that is not a hole off its list: it becomes a hole,
    and the free bytes the heap holds stay. -/
theorem Inv.removeFree (hinv : Inv b h H) (hlo : h.spanAllocator.Live o) (ho : o ∉ H)
    (hloc : (h.spans o).location ≠ .inUse) :
    Inv b (PageHeap.removeFromFreeList b h o) (insert o H) ∧
      heldBytes b (PageHeap.removeFromFreeList b h o) (insert o H) = heldBytes b h H ∧
      (PageHeap.removeFromFreeList b h o).stats.freeBytes ≤ h.stats.freeBytes := by
  have hstats := hinv.removeFromFreeList_stats hlo ho hloc
  refine ⟨hinv.removeFromFreeList hlo ho hloc, ?_, ?_⟩
  · unfold heldBytes
    rw [Finset.sum_insert ho, removeFromFreeList_spans]
    split_ifs at hstats <;> omega
  · split_ifs at hstats <;> omega

/-- `CheckAndHandlePreMerge(span, other)` on a neighbour that is a span of
    the heap and not a hole: either it returns `nullptr` and only its calls
    to the system changed the heap, or it returns the neighbour, taken off
    its list. -/
theorem Inv.checkAndHandlePreMerge (hinv : Inv b h H)
    (hsloc : (h.spans s).location ≠ .inUse) {o? : Option SpanId}
    (ho? : ∀ o, o? = some o → h.spanAllocator.Live o ∧ o ∉ H) :
    Keeps (checkAndHandlePreMerge b env h s o?).1 h ∧
      (checkAndHandlePreMerge b env h s o?).1.spans = h.spans ∧
      (checkAndHandlePreMerge b env h s o?).1.spanAllocator = h.spanAllocator ∧
      (checkAndHandlePreMerge b env h s o?).1.pagemap = h.pagemap ∧
      (checkAndHandlePreMerge b env h s o?).1.stats.freeBytes ≤ h.stats.freeBytes ∧
      ((checkAndHandlePreMerge b env h s o?).2 = none ∧
          Inv b (checkAndHandlePreMerge b env h s o?).1 H ∧
          heldBytes b (checkAndHandlePreMerge b env h s o?).1 H = heldBytes b h H ∨
        ∃ o, (checkAndHandlePreMerge b env h s o?).2 = some o ∧ o? = some o ∧
          Inv b (checkAndHandlePreMerge b env h s o?).1 (insert o H) ∧
          heldBytes b (checkAndHandlePreMerge b env h s o?).1 (insert o H) = heldBytes b h H) := by
  cases o? with
  | none => exact ⟨Keeps.refl h, rfl, rfl, rfl, le_rfl, Or.inl ⟨rfl, hinv, rfl⟩⟩
  | some o =>
    obtain ⟨hlo, ho⟩ := ho? o rfl
    -- the neighbour taken off its list, from a heap that only made calls
    have hremove : ∀ h', Frame h' h → (h.spans o).location ≠ .inUse →
        Keeps (PageHeap.removeFromFreeList b h' o) h ∧ (PageHeap.removeFromFreeList b h' o).spans = h.spans ∧
        (PageHeap.removeFromFreeList b h' o).spanAllocator = h.spanAllocator ∧
        (PageHeap.removeFromFreeList b h' o).pagemap = h.pagemap ∧
        (PageHeap.removeFromFreeList b h' o).stats.freeBytes ≤ h.stats.freeBytes ∧
        Inv b (PageHeap.removeFromFreeList b h' o) (insert o H) ∧
        heldBytes b (PageHeap.removeFromFreeList b h' o) (insert o H) = heldBytes b h H := by
      intro h' hf hloc
      obtain ⟨hinv', hheld, hfree⟩ := (hinv.of_frame hf).removeFree (hf.spanAllocator ▸ hlo) ho
        (hf.spans ▸ hloc)
      exact ⟨(keeps_removeFromFreeList h' o).trans hf.toKeeps,
        (PageHeap.removeFromFreeList_spans b h' o).trans hf.spans,
        (PageHeap.removeFromFreeList_spanAllocator b h' o).trans hf.spanAllocator,
        (removeFromFreeList_pagemap h' o).trans hf.pagemap, hfree.trans hf.freeBytes.le, hinv',
        hheld.trans (hf.heldBytes H)⟩
    obtain ⟨hf, -, -⟩ := @decommitSpan_spec b env h o
    unfold PageHeap.checkAndHandlePreMerge
    dsimp only
    split_ifs with hagg hworked hloc
    · -- aggressive decommit: a normal neighbour of a returned span is decommitted first
      obtain ⟨hk, hsp, hal, hpm, hfree, hinv', hheld⟩ := hremove _ hf (by rw [hagg.2.1]; simp)
      exact ⟨hk, hsp, hal, hpm, hfree, Or.inr ⟨o, rfl, rfl, hinv', hheld⟩⟩
    · exact ⟨hf.toKeeps, hf.spans, hf.spanAllocator, hf.pagemap, hf.freeBytes.le,
        Or.inl ⟨rfl, hinv.of_frame hf, hf.heldBytes H⟩⟩
    · exact ⟨Keeps.refl h, rfl, rfl, rfl, le_rfl, Or.inl ⟨rfl, hinv, rfl⟩⟩
    · -- the same location: the neighbour merges
      have hne : (h.spans o).location ≠ .inUse := by
        rw [not_not.1 hloc]
        exact hsloc
      obtain ⟨hk, hsp, hal, hpm, hfree, hinv', hheld⟩ := hremove h (Frame.refl h) hne
      exact ⟨hk, hsp, hal, hpm, hfree, Or.inr ⟨o, rfl, rfl, hinv', hheld⟩⟩

/-! ## Changing a hole in place -/

/-- The layout only reads where spans start and how long they are. -/
theorem Layout.of_start_length {spans spans' : SpanId → Span} {live : SpanId → Prop}
    {pm : ℕ → Option SpanId} (hL : Layout b spans live pm)
    (heq : ∀ t, (spans' t).start = (spans t).start ∧ (spans' t).length = (spans t).length) :
    Layout b spans' live pm := by
  refine ⟨fun t ht => ?_, fun t u ht hu htu => ?_, fun t ht => ?_, fun t ht => ?_, fun p t hp => ?_⟩
  · rw [(heq t).1, (heq t).2]
    exact hL.bounds t ht
  · rw [(heq t).1, (heq t).2, (heq u).1, (heq u).2]
    exact hL.disjoint t u ht hu htu
  · rw [(heq t).1]
    exact hL.first t ht
  · rw [(heq t).1, (heq t).2]
    exact hL.last t ht
  · obtain ⟨u, hu, h1, h2⟩ := hL.covered p t hp
    exact ⟨u, hu, by rw [(heq u).1, (heq u).2]; exact ⟨h1, h2⟩⟩

theorem covered_of_start_length {h h' : PageHeap} (hal : h'.spanAllocator = h.spanAllocator)
    (heq : ∀ t, (h'.spans t).start = (h.spans t).start ∧ (h'.spans t).length = (h.spans t).length)
    (p : ℕ) : Covered h' p ↔ Covered h p := by
  unfold Covered
  simp only [hal, heq]

/-- Rewriting the fields of a hole but its pages keeps the invariant. -/
theorem Inv.setSpan (hinv : Inv b h H) (hs : s ∈ H) (sp : Span) (hstart : sp.start = (h.spans s).start)
    (hlen : sp.length = (h.spans s).length) :
    Inv b (h.setSpan s sp) H ∧ heldBytes b (h.setSpan s sp) H = heldBytes b h H := by
  have heq : ∀ t, ((h.setSpan s sp).spans t).start = (h.spans t).start ∧
      ((h.setSpan s sp).spans t).length = (h.spans t).length := by
    intro t
    by_cases hts : t = s
    · subst hts
      rw [setSpan_spans, Function.update_self]
      exact ⟨hstart, hlen⟩
    · rw [setSpan_spans, Function.update_of_ne hts]
      exact ⟨rfl, rfl⟩
  have hsum : ∑ t ∈ H, ((h.setSpan s sp).spans t).length * 2 ^ b.pageShift =
      ∑ t ∈ H, (h.spans t).length * 2 ^ b.pageShift :=
    Finset.sum_congr rfl fun t _ => by rw [(heq t).2]
  have hother : ∀ t, t ∉ H → (h.setSpan s sp).spans t = h.spans t := by
    intro t ht
    have hts : t ≠ s := by
      rintro rfl
      exact ht hs
    rw [setSpan_spans, Function.update_of_ne hts]
  refine ⟨hinv.of_holes (hinv.layout.of_start_length heq) subset_rfl (fun t _ => Iff.rfl)
    (fun t ht ht' => absurd ht ht') hinv.holes_live hother (fun c => rfl) (fun c => rfl) rfl rfl le_rfl
    hinv.taken hsum hinv.allocator, ?_⟩
  unfold heldBytes
  rw [hsum]
  rfl

/-- The aggressive decommit at the start of `MergeIntoFreeList` only changes
    the location of the span, from normal to returned. -/
theorem Inv.decommitMerging (hinv : Inv b h H) (hs : s ∈ H) (hsloc : (h.spans s).location ≠ .inUse) :
    Inv b (decommitMerging b env h s) H ∧
      heldBytes b (decommitMerging b env h s) H = heldBytes b h H ∧
      Keeps (decommitMerging b env h s) h ∧
      (∀ t, ((decommitMerging b env h s).spans t).start = (h.spans t).start ∧
        ((decommitMerging b env h s).spans t).length = (h.spans t).length) ∧
      (decommitMerging b env h s).spanAllocator = h.spanAllocator ∧
      (decommitMerging b env h s).stats.freeBytes = h.stats.freeBytes ∧
      ((decommitMerging b env h s).spans s).location ≠ .inUse ∧
      ((h.spans s).location = .onReturnedFreelist →
        ((decommitMerging b env h s).spans s).location = .onReturnedFreelist) := by
  obtain ⟨hf, -, -⟩ := @decommitSpan_spec b env h s
  unfold PageHeap.decommitMerging
  dsimp only
  split_ifs with hagg hok
  · -- the decommit worked: `s` is returned now
    have hinv' := hinv.of_frame hf
    obtain ⟨hinv'', hheld⟩ := hinv'.setSpan hs { (decommitSpan b env h s).1.spans s with
      location := .onReturnedFreelist } rfl rfl
    refine ⟨hinv'', hheld.trans (hf.heldBytes H), (keeps_setSpan _ _ _).trans hf.toKeeps,
      fun t => ?_, hf.spanAllocator, hf.freeBytes, ?_, fun _ => ?_⟩
    · by_cases hts : t = s
      · subst hts
        rw [setSpan_spans, Function.update_self, hf.spans]
        exact ⟨rfl, rfl⟩
      · rw [setSpan_spans, Function.update_of_ne hts, hf.spans]
        exact ⟨rfl, rfl⟩
    · rw [setSpan_spans, Function.update_self]
      simp
    · rw [setSpan_spans, Function.update_self]
  · rw [← hf.spans] at hsloc
    exact ⟨hinv.of_frame hf, hf.heldBytes H, hf.toKeeps, fun t => by rw [hf.spans]; exact ⟨rfl, rfl⟩,
      hf.spanAllocator, hf.freeBytes, hsloc, fun h' => by rw [hf.spans]; exact h'⟩
  · exact ⟨hinv, rfl, Keeps.refl h, fun t => ⟨rfl, rfl⟩, rfl, rfl, hsloc, id⟩

/-! ## The merge -/

/-- The bytes of the hole `s` go to the counter of its location. -/
theorem Inv.heldBytes_prependToFreeList (hinv : Inv b h H) (hs : s ∈ H) :
    heldBytes b (PageHeap.prependToFreeList b h s) (H.erase s) = heldBytes b h H := by
  have hstats := hinv.prependToFreeList_stats hs
  have hsum := Finset.add_sum_erase H (fun t => (h.spans t).length * 2 ^ b.pageShift) hs
  unfold heldBytes
  rw [prependToFreeList_spans]
  split_ifs at hstats <;> omega

/-- One side of the merge: `CheckAndHandlePreMerge` on the span before `s`,
    then the merge of what it returns. -/
theorem Inv.mergeStepPrev (hinv : Inv b h {s}) (hsloc : (h.spans s).location ≠ .inUse)
    {d : Option SpanId} (hd : ∀ o, d = some o → h.spanAllocator.Live o ∧ o ≠ s ∧
      (h.spans o).start + (h.spans o).length = (h.spans s).start) :
    Inv b (PageHeap.mergePrev (PageHeap.checkAndHandlePreMerge b env h s d).1 s (PageHeap.checkAndHandlePreMerge b env h s d).2) {s} ∧
      heldBytes b (PageHeap.mergePrev (PageHeap.checkAndHandlePreMerge b env h s d).1 s
        (PageHeap.checkAndHandlePreMerge b env h s d).2) {s} = heldBytes b h {s} ∧
      Keeps (PageHeap.mergePrev (PageHeap.checkAndHandlePreMerge b env h s d).1 s
        (PageHeap.checkAndHandlePreMerge b env h s d).2) h ∧
      (∀ p, Covered (PageHeap.mergePrev (PageHeap.checkAndHandlePreMerge b env h s d).1 s
        (PageHeap.checkAndHandlePreMerge b env h s d).2) p ↔ Covered h p) ∧
      ((PageHeap.mergePrev (PageHeap.checkAndHandlePreMerge b env h s d).1 s (PageHeap.checkAndHandlePreMerge b env h s d).2).spans
        s).start + ((PageHeap.mergePrev (PageHeap.checkAndHandlePreMerge b env h s d).1 s
          (PageHeap.checkAndHandlePreMerge b env h s d).2).spans s).length =
        (h.spans s).start + (h.spans s).length ∧
      ((PageHeap.mergePrev (PageHeap.checkAndHandlePreMerge b env h s d).1 s (PageHeap.checkAndHandlePreMerge b env h s d).2).spans
        s).location = (h.spans s).location ∧
      (PageHeap.mergePrev (PageHeap.checkAndHandlePreMerge b env h s d).1 s
        (PageHeap.checkAndHandlePreMerge b env h s d).2).stats.freeBytes ≤ h.stats.freeBytes := by
  obtain ⟨hk, hsp, hal, -, hfree, hres⟩ := @Inv.checkAndHandlePreMerge b env h {s} s hinv hsloc d
    fun o ho => ⟨(hd o ho).1, Finset.notMem_singleton.2 (hd o ho).2.1⟩
  rcases hres with ⟨hnone, hinv', hheld⟩ | ⟨o, hsome, hdo, hinv', hheld⟩
  · rw [hnone, mergePrev_none]
    exact ⟨hinv', hheld, hk, covered_of_start_length hal (fun t => by rw [hsp]; exact ⟨rfl, rfl⟩),
      by rw [hsp], by rw [hsp], hfree⟩
  · rw [hsome]
    obtain ⟨-, hne, hadj⟩ := hd o hdo
    rw [← hsp] at hadj
    obtain ⟨hinv'', hheld', hcov, hst, hlen⟩ :=
      hinv'.mergePrev (Finset.mem_singleton_self s) (Finset.notMem_singleton.2 hne) hadj
    refine ⟨hinv'', hheld'.trans hheld, (keeps_mergePrev _ s _).trans hk, fun p => ?_, ?_, ?_,
      (le_of_eq rfl).trans hfree⟩
    · rw [hcov]
      exact covered_of_start_length hal (fun t => by rw [hsp]; exact ⟨rfl, rfl⟩) p
    · rw [hst, hlen, ← hsp]
      omega
    · rw [mergePrev_spans, Function.update_self, hsp]

/-- The other side of the merge: the span after `s`. -/
theorem Inv.mergeStepNext (hinv : Inv b h {s}) (hsloc : (h.spans s).location ≠ .inUse)
    {d : Option SpanId} (hd : ∀ o, d = some o → h.spanAllocator.Live o ∧ o ≠ s ∧
      (h.spans s).start + (h.spans s).length = (h.spans o).start) :
    Inv b (PageHeap.mergeNext (PageHeap.checkAndHandlePreMerge b env h s d).1 s
      (PageHeap.checkAndHandlePreMerge b env h s d).2) {s} ∧
      heldBytes b (PageHeap.mergeNext (PageHeap.checkAndHandlePreMerge b env h s d).1 s
        (PageHeap.checkAndHandlePreMerge b env h s d).2) {s} = heldBytes b h {s} ∧
      Keeps (PageHeap.mergeNext (PageHeap.checkAndHandlePreMerge b env h s d).1 s
        (PageHeap.checkAndHandlePreMerge b env h s d).2) h ∧
      (∀ p, Covered (PageHeap.mergeNext (PageHeap.checkAndHandlePreMerge b env h s d).1 s
        (PageHeap.checkAndHandlePreMerge b env h s d).2) p ↔ Covered h p) ∧
      ((PageHeap.mergeNext (PageHeap.checkAndHandlePreMerge b env h s d).1 s
        (PageHeap.checkAndHandlePreMerge b env h s d).2).spans s).location = (h.spans s).location ∧
      (PageHeap.mergeNext (PageHeap.checkAndHandlePreMerge b env h s d).1 s
        (PageHeap.checkAndHandlePreMerge b env h s d).2).stats.freeBytes ≤ h.stats.freeBytes := by
  obtain ⟨hk, hsp, hal, -, hfree, hres⟩ := @Inv.checkAndHandlePreMerge b env h {s} s hinv hsloc d
    fun o ho => ⟨(hd o ho).1, Finset.notMem_singleton.2 (hd o ho).2.1⟩
  rcases hres with ⟨hnone, hinv', hheld⟩ | ⟨o, hsome, hdo, hinv', hheld⟩
  · rw [hnone, mergeNext_none]
    exact ⟨hinv', hheld, hk, covered_of_start_length hal (fun t => by rw [hsp]; exact ⟨rfl, rfl⟩),
      by rw [hsp], hfree⟩
  · rw [hsome]
    obtain ⟨-, hne, hadj⟩ := hd o hdo
    rw [← hsp] at hadj
    obtain ⟨hinv'', hheld', hcov, -, -⟩ :=
      hinv'.mergeNext (Finset.mem_singleton_self s) (Finset.notMem_singleton.2 hne) hadj
    refine ⟨hinv'', hheld'.trans hheld, (keeps_mergeNext _ s _).trans hk, fun p => ?_, ?_,
      (le_of_eq rfl).trans hfree⟩
    · rw [hcov]
      exact covered_of_start_length hal (fun t => by rw [hsp]; exact ⟨rfl, rfl⟩) p
    · rw [mergeNext_spans, Function.update_self, hsp]

/-- `MergeIntoFreeList(span)` puts the hole `span` back, merged with the free
    neighbours that can merge: the invariant holds with no hole, the free
    bytes the heap holds are those it held with the hole, and the spans cover
    the same pages. A returned span stays returned, so `free_bytes` does not
    grow. -/
theorem Inv.mergeIntoFreeList (hinv : Inv b h {s}) (hsloc : (h.spans s).location ≠ .inUse) :
    Inv b (PageHeap.mergeIntoFreeList b env h s) ∅ ∧
      heldBytes b (PageHeap.mergeIntoFreeList b env h s) ∅ = heldBytes b h {s} ∧
      Keeps (PageHeap.mergeIntoFreeList b env h s) h ∧
      (∀ p, Covered (PageHeap.mergeIntoFreeList b env h s) p ↔ Covered h p) ∧
      ((h.spans s).location = .onReturnedFreelist →
        (PageHeap.mergeIntoFreeList b env h s).stats.freeBytes ≤ h.stats.freeBytes) := by
  have hls := hinv.holes_live s (Finset.mem_singleton_self s)
  obtain ⟨hp1, -, hend0⟩ := hinv.layout.bounds s hls
  have hlt := pages_lt b
  obtain ⟨hinv1, hheld1, hk1, heq1, hal1, hfree1, hloc1, hret1⟩ :=
    @Inv.decommitMerging b env h {s} s hinv (Finset.mem_singleton_self s) hsloc
  unfold PageHeap.mergeIntoFreeList
  dsimp only
  set h1 := PageHeap.decommitMerging b env h s with hh1
  obtain ⟨hp1', -, hend1⟩ := hinv1.layout.bounds s (hinv1.holes_live s (Finset.mem_singleton_self s))
  -- the span before `s` ends on the page before it
  have hsub : Word.sub 64 (h.spans s).start 1 = (h1.spans s).start - 1 := by
    rw [(heq1 s).1, Word.sub_of_le hp1 (by omega)]
  have hd1 : ∀ o, h1.getDescriptor b ((h1.spans s).start - 1) = some o →
      h1.spanAllocator.Live o ∧ o ≠ s ∧ (h1.spans o).start + (h1.spans o).length = (h1.spans s).start := by
    intro o ho
    rw [getDescriptor_of_lt (by omega)] at ho
    exact hinv1.layout.prev_neighbour (hinv1.holes_live s (Finset.mem_singleton_self s)) ho
  rw [hsub]
  obtain ⟨hinv3, hheld3, hk3, hcov3, hend3, hloc3, hfree3⟩ := @Inv.mergeStepPrev b env h1 s hinv1 hloc1 _ hd1
  set h3 := PageHeap.mergePrev (PageHeap.checkAndHandlePreMerge b env h1 s
    (h1.getDescriptor b ((h1.spans s).start - 1))).1 s (PageHeap.checkAndHandlePreMerge b env h1 s
      (h1.getDescriptor b ((h1.spans s).start - 1))).2 with hh3
  -- the span after `s` starts on the page after it, which did not move
  have hls3 := hinv3.holes_live s (Finset.mem_singleton_self s)
  obtain ⟨-, -, hend3'⟩ := hinv3.layout.bounds s hls3
  have hadd : Word.add 64 (h.spans s).start (h.spans s).length =
      (h3.spans s).start + (h3.spans s).length := by
    rw [hend3, (heq1 s).1, (heq1 s).2, Word.add_of_lt (by omega)]
  have hd2 : ∀ o, h3.getDescriptor b ((h3.spans s).start + (h3.spans s).length) = some o →
      h3.spanAllocator.Live o ∧ o ≠ s ∧
        (h3.spans s).start + (h3.spans s).length = (h3.spans o).start := by
    intro o ho
    by_cases hlast : (h3.spans s).start + (h3.spans s).length < 2 ^ (kAddressBits - b.pageShift)
    · rw [getDescriptor_of_lt hlast] at ho
      obtain ⟨h1', h2', h3'⟩ := hinv3.layout.next_neighbour hls3 ho
      exact ⟨h1', h2', h3'.symm⟩
    · rw [getDescriptor_of_ge (by omega)] at ho
      cases ho
  rw [hadd]
  have hloc3' : (h3.spans s).location ≠ .inUse := by rw [hloc3]; exact hloc1
  obtain ⟨hinv5, hheld5, hk5, hcov5, hloc5, hfree5⟩ := @Inv.mergeStepNext b env h3 s hinv3 hloc3' _ hd2
  set h5 := PageHeap.mergeNext (PageHeap.checkAndHandlePreMerge b env h3 s
    (h3.getDescriptor b ((h3.spans s).start + (h3.spans s).length))).1 s
      (PageHeap.checkAndHandlePreMerge b env h3 s
        (h3.getDescriptor b ((h3.spans s).start + (h3.spans s).length))).2 with hh5
  have hloc5' : (h5.spans s).location ≠ .inUse := by rw [hloc5]; exact hloc3'
  have hinv6 := hinv5.prependToFreeList (Finset.mem_singleton_self s) hloc5'
  rw [Finset.erase_singleton] at hinv6
  have hheld6 := hinv5.heldBytes_prependToFreeList (Finset.mem_singleton_self s)
  rw [Finset.erase_singleton] at hheld6
  refine ⟨hinv6, hheld6.trans (hheld5.trans (hheld3.trans hheld1)),
    (keeps_prependToFreeList h5 s).trans (hk5.trans (hk3.trans hk1)), fun p => ?_, fun hret => ?_⟩
  · rw [covered_of_start_length (prependToFreeList_spanAllocator b h5 s)
      (fun t => by rw [prependToFreeList_spans]; exact ⟨rfl, rfl⟩), hcov5, hcov3,
      covered_of_start_length hal1 heq1]
  · -- a returned span goes on a returned list
    have hret5 : (h5.spans s).location = .onReturnedFreelist := by rw [hloc5, hloc3, hret1 hret]
    rw [(hinv5.prependToFreeList_stats (Finset.mem_singleton_self s)).1, hret5]
    simp only [reduceCtorEq, if_false, Nat.add_zero]
    exact hfree5.trans (hfree3.trans hfree1.le)

/-! ## Releasing a span -/

/-- `ReleaseSpan(s)` on a normal free span: its first call to
    `TCMalloc_SystemRelease` decides. If that fails, it returns `0`, and the
    failure is counted; if it works, it returns the length of `s`,
    which moved to the returned lists, merged with its returned neighbours,
    and `free_bytes` lost at least its bytes. Either way the invariant holds,
    the heap holds the same free bytes, and covers the same pages. -/
theorem Inv.releaseSpan (hinv : Inv b h ∅) (hlive : h.spanAllocator.Live s)
    (hnormal : (h.spans s).location = .onNormalFreelist) :
    Inv b (PageHeap.releaseSpan b env h s).1 ∅ ∧
      heldBytes b (PageHeap.releaseSpan b env h s).1 ∅ = heldBytes b h ∅ ∧
      Keeps (PageHeap.releaseSpan b env h s).1 h ∧
      (∀ p, Covered (PageHeap.releaseSpan b env h s).1 p ↔ Covered h p) ∧
      (PageHeap.releaseSpan b env h s).1.stats.freeBytes +
          (PageHeap.releaseSpan b env h s).2 * 2 ^ b.pageShift ≤ h.stats.freeBytes ∧
      ((PageHeap.releaseSpan b env h s).2 = 0 ∧
          (PageHeap.releaseSpan b env h s).1.calls.releaseFailures = h.calls.releaseFailures + 1 ∨
        (PageHeap.releaseSpan b env h s).2 = (h.spans s).length) := by
  obtain ⟨hf, -, hfail⟩ := @decommitSpan_spec b env h s
  have hinv1 := hinv.of_frame hf
  unfold PageHeap.releaseSpan
  dsimp only
  set h1 := (decommitSpan b env h s).1 with hh1
  split_ifs with hok
  · -- the release worked: `s` becomes a returned hole, and merges
    have hloc1 : (h1.spans s).location = .onNormalFreelist := by rw [hf.spans, hnormal]
    have hlive1 : h1.spanAllocator.Live s := hf.spanAllocator ▸ hlive
    obtain ⟨hinv2, hheld2, -⟩ := hinv1.removeFree hlive1 (Finset.notMem_empty s)
      (by rw [hloc1]; simp)
    have hstats := hinv1.removeFromFreeList_stats hlive1 (Finset.notMem_empty s)
      (by rw [hloc1]; simp)
    rw [hloc1, if_pos rfl] at hstats
    rw [insert_empty_eq] at hinv2 hheld2
    set h2 := PageHeap.removeFromFreeList b h1 s with hh2
    have hsp2 : h2.spans = h.spans := (removeFromFreeList_spans b h1 s).trans hf.spans
    obtain ⟨hinv3, hheld3⟩ := hinv2.setSpan (Finset.mem_singleton_self s)
      { h2.spans s with location := .onReturnedFreelist } rfl rfl
    set h3 := h2.setSpan s { h2.spans s with location := .onReturnedFreelist } with hh3
    have hret3 : (h3.spans s).location = .onReturnedFreelist := by
      rw [hh3, setSpan_spans, Function.update_self]
    obtain ⟨hinv4, hheld4, hk4, hcov4, hfree4⟩ := @Inv.mergeIntoFreeList b env h3 s hinv3
      (by rw [hret3]; simp)
    have hk : Keeps (PageHeap.mergeIntoFreeList b env h3 s) h1 :=
      hk4.trans ((keeps_setSpan h2 s _).trans (keeps_removeFromFreeList h1 s))
    have heq3 : ∀ t, (h3.spans t).start = (h.spans t).start ∧
        (h3.spans t).length = (h.spans t).length := by
      intro t
      by_cases hts : t = s
      · subst hts
        rw [hh3, setSpan_spans, Function.update_self, hsp2]
        exact ⟨rfl, rfl⟩
      · rw [hh3, setSpan_spans, Function.update_of_ne hts, hsp2]
        exact ⟨rfl, rfl⟩
    dsimp only
    refine ⟨hinv4, hheld4.trans (hheld3.trans (hheld2.trans (hf.heldBytes ∅))), hk.trans hf.toKeeps,
      fun p => ?_, ?_, Or.inr (by rw [hsp2])⟩
    · rw [hcov4]
      exact covered_of_start_length (show h3.spanAllocator = h.spanAllocator from
        (removeFromFreeList_spanAllocator b h1 s).trans hf.spanAllocator) heq3 p
    · -- `free_bytes` lost the bytes of `s` when it left its list, and merging returned
      -- spans does not add to it
      have hfree := hfree4 hret3
      have h3free : h3.stats.freeBytes = h2.stats.freeBytes := rfl
      have hlen1 : (h1.spans s).length = (h.spans s).length := by rw [hf.spans]
      have hs1 := hstats.1
      rw [hlen1] at hs1
      rw [hsp2]
      have := hf.freeBytes
      omega
  · -- the release failed: only the failure is counted
    rw [if_neg hok] at hfail
    dsimp only
    exact ⟨hinv1, hf.heldBytes ∅, hf.toKeeps,
      covered_of_start_length hf.spanAllocator (fun t => by rw [hf.spans]; exact ⟨rfl, rfl⟩),
      by rw [hf.freeBytes, Nat.zero_mul, Nat.add_zero], Or.inl ⟨rfl, hfail⟩⟩

end Gperftools.PageHeap
