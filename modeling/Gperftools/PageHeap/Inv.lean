import Gperftools.PageHeap.Ops
import Mathlib.Algebra.BigOperators.Group.Finset.Basic

/-!
# The page heap: its representation invariant

`Inv b h holes` is what the page heap keeps true between its calls (what
`CheckExpensive`, `CheckList` and `CheckSet` check, and what the counters of
`Stats` count), but for the spans `holes`: spans in the middle of a move,
taken off their lists and their counter and not yet put back.

* the spans lie within the pages `1` to `2 ^ (kAddressBits - kPageShift)`
  and do not overlap; the pagemap has every span at its first and last page,
  and has entries only on the pages of spans;
* every free span but the holes is where `PrependToFreeList` puts it: on the
  list of its length and location, or in the set of its location; the lists
  hold nothing else and no span twice, and the sets are ordered by
  `SpanBestFitLess`;
* `free_bytes` and `unmapped_bytes` count the pages on the lists and sets of
  their location; with the holes, they make at most `TCMalloc_SystemTaken`.

The operations on lists and spans move spans in and out of the holes:
`Inv.removeFromFreeList` makes a listed span a hole, `Inv.prependToFreeList`
puts a hole on its list, and `Inv.join` merges two neighbouring holes. The
calls to the system leave the invariant alone.
-/

namespace Gperftools

namespace SpanAllocator

/-- The object `s` has been handed out and not deleted. -/
def Live (a : SpanAllocator) (s : SpanId) : Prop := s < a.carved ∧ s ∉ a.freeList

instance (a : SpanAllocator) (s : SpanId) : Decidable (a.Live s) :=
  inferInstanceAs (Decidable (_ ∧ _))

@[simp] theorem live_delete {a : SpanAllocator} {s t : SpanId} :
    (a.delete s).Live t ↔ a.Live t ∧ t ≠ s := by
  simp only [Live, delete, List.mem_cons, not_or]
  tauto

theorem live_delete_eq (a : SpanAllocator) (s : SpanId) :
    (a.delete s).Live = fun t => a.Live t ∧ t ≠ s :=
  funext fun _ => propext live_delete

/-- The allocator of a fresh heap has handed nothing out. -/
theorem not_live_init (s : SpanId) : ¬ init.Live s := by
  rintro ⟨hlt, hfree⟩
  exact hfree (List.mem_singleton.mpr (Nat.lt_one_iff.mp hlt))

/-- The free list holds objects carved before, each once: what `Delete` of
    live objects keeps. -/
def WellFormed (a : SpanAllocator) : Prop := a.freeList.Nodup ∧ ∀ s ∈ a.freeList, s < a.carved

theorem wellFormed_init : init.WellFormed :=
  ⟨List.nodup_cons.mpr ⟨List.not_mem_nil, List.nodup_nil⟩, fun s hs => by
    rw [List.mem_singleton.mp hs]
    exact Nat.one_pos⟩

theorem WellFormed.delete {a : SpanAllocator} (hwf : a.WellFormed) {s : SpanId} (hs : a.Live s) :
    (a.delete s).WellFormed := by
  refine ⟨List.nodup_cons.mpr ⟨hs.2, hwf.1⟩, fun t ht => ?_⟩
  rcases List.mem_cons.mp ht with rfl | ht
  · exact hs.1
  · exact hwf.2 t ht

theorem WellFormed.new_snd {a : SpanAllocator} (hwf : a.WellFormed) : a.new.2.WellFormed := by
  unfold SpanAllocator.new
  split
  · rename_i s rest hl
    obtain ⟨hnd, hlt⟩ := hwf
    rw [hl] at hnd hlt
    exact ⟨(List.nodup_cons.mp hnd).2, fun t ht => hlt t (List.mem_cons_of_mem s ht)⟩
  · exact ⟨List.nodup_nil, fun t ht => absurd ht List.not_mem_nil⟩

/-- `New` hands out an object that is not live. -/
theorem not_live_new (a : SpanAllocator) : ¬ a.Live a.new.1 := by
  rintro ⟨hlt, hfree⟩
  unfold new at hlt hfree
  split at hlt
  · rename_i s rest hl
    exact hfree (hl ▸ List.mem_cons_self)
  · exact Nat.lt_irrefl _ hlt

/-- After `New`, the live objects are those before and the one handed out. -/
theorem WellFormed.live_new {a : SpanAllocator} (hwf : a.WellFormed) (t : SpanId) :
    a.new.2.Live t ↔ a.Live t ∨ t = a.new.1 := by
  unfold new Live
  split
  · rename_i s rest hl
    have hnd := hl ▸ hwf.1
    have hs : s < a.carved := hwf.2 s (hl ▸ List.mem_cons_self)
    rw [hl]
    by_cases hts : t = s
    · subst hts
      exact ⟨fun _ => .inr rfl, fun _ => ⟨hs, (List.nodup_cons.mp hnd).1⟩⟩
    · simp [hts]
  · rename_i hl
    rw [hl]
    simp only [List.not_mem_nil, not_false_eq_true, and_true]
    exact Nat.lt_succ_iff_lt_or_eq

end SpanAllocator

namespace PageHeap

variable (b : Build)

/-! ## Views of the state -/

/-- The lists `free_[i].normal`, or `free_[i].returned`. -/
def lists (h : PageHeap) (normal : Bool) : ℕ → List SpanId :=
  if normal then h.freeNormal else h.freeReturned

/-- `large_normal_`, or `large_returned_`. -/
def sets (h : PageHeap) (normal : Bool) : List (SpanId × ℕ) :=
  if normal then h.largeNormal else h.largeReturned

/-- The page `p` lies in a span of the heap. -/
def Covered (h : PageHeap) (p : ℕ) : Prop :=
  ∃ s, h.spanAllocator.Live s ∧ (h.spans s).start ≤ p ∧ p < (h.spans s).start + (h.spans s).length

/-- Where `PrependToFreeList` puts the free span `s`: in the set of its
    location if it is longer than `kMaxPages`, on the list of its length and
    location otherwise. -/
def Listed (h : PageHeap) (s : SpanId) : Prop :=
  if b.kMaxPages < (h.spans s).length then
    (s, (h.spans s).length) ∈ h.sets ((h.spans s).location == .onNormalFreelist)
  else s ∈ h.lists ((h.spans s).location == .onNormalFreelist) ((h.spans s).length - 1)

/-- The pages on the lists and in the set of one location, as its counter
    counts them: `i + 1` for each span on the list `i`, and the length kept
    with each span of the set. -/
def listedPages (lists : ℕ → List SpanId) (set : List (SpanId × ℕ)) : ℕ :=
  ∑ i ∈ Finset.range b.kMaxPages, (lists i).length * (i + 1) + (set.map Prod.snd).sum

/-- The free bytes the heap holds: those its two counters count, and those
    of the holes. -/
def heldBytes (h : PageHeap) (holes : Finset SpanId) : ℕ :=
  h.stats.freeBytes + h.stats.unmappedBytes + ∑ s ∈ holes, (h.spans s).length * 2 ^ b.pageShift

/-- `s` is a span of the heap, free, of the location of the lists of `normal`
    spans or of returned ones, and not a hole. -/
structure FreeOn (h : PageHeap) (holes : Finset SpanId) (normal : Bool) (s : SpanId) : Prop where
  live : h.spanAllocator.Live s
  not_mem : s ∉ holes
  ne_inUse : (h.spans s).location ≠ .inUse
  normal_eq : ((h.spans s).location == .onNormalFreelist) = normal

/-- The layout of the spans `live` (their fields in `spans`) and the
    pagemap: the spans lie within the pages `1` to `2 ^ (kAddressBits -
    kPageShift)` and do not overlap, the pagemap has each at its first and
    last page, and it has entries only on the pages of spans. -/
structure Layout (spans : SpanId → Span) (live : SpanId → Prop) (pagemap : ℕ → Option SpanId) :
    Prop where
  bounds : ∀ s, live s → 1 ≤ (spans s).start ∧ 1 ≤ (spans s).length ∧
    (spans s).start + (spans s).length ≤ 2 ^ (kAddressBits - b.pageShift)
  disjoint : ∀ s t, live s → live t → s ≠ t →
    (spans s).start + (spans s).length ≤ (spans t).start ∨
      (spans t).start + (spans t).length ≤ (spans s).start
  first : ∀ s, live s → pagemap (spans s).start = some s
  last : ∀ s, live s → pagemap ((spans s).start + (spans s).length - 1) = some s
  covered : ∀ p t, pagemap p = some t →
    ∃ s, live s ∧ (spans s).start ≤ p ∧ p < (spans s).start + (spans s).length

/-- The representation invariant of the page heap, but for the spans
    `holes`. -/
structure Inv (h : PageHeap) (holes : Finset SpanId) : Prop where
  layout : Layout b h.spans h.spanAllocator.Live h.pagemap
  holes_live : ∀ s ∈ holes, h.spanAllocator.Live s
  onList : ∀ normal i s, s ∈ h.lists normal i → FreeOn h holes normal s ∧
    (h.spans s).length = i + 1 ∧ (h.spans s).length ≤ b.kMaxPages
  onSet : ∀ normal x, x ∈ h.sets normal → FreeOn h holes normal x.1 ∧
    x.2 = (h.spans x.1).length ∧ b.kMaxPages < x.2
  listed : ∀ s, h.spanAllocator.Live s → s ∉ holes → (h.spans s).location ≠ .inUse → Listed b h s
  nodup : ∀ normal i, (h.lists normal i).Nodup
  sorted : ∀ normal, (h.sets normal).Pairwise fun x y => h.bestFitLess x y
  free : h.stats.freeBytes = listedPages b (h.lists true) (h.sets true) * 2 ^ b.pageShift
  unmapped : h.stats.unmappedBytes = listedPages b (h.lists false) (h.sets false) * 2 ^ b.pageShift
  held : heldBytes b h holes ≤ h.systemTaken
  taken : h.systemTaken < 2 ^ 64
  allocator : h.spanAllocator.WellFormed

/-! ## The list operations on the views -/

variable {b}

@[simp] theorem onList_freeBytes (st : Stats) (normal : Bool) (f : ℕ → ℕ) :
    (st.onList normal f).freeBytes = if normal then f st.freeBytes else st.freeBytes := by
  cases normal <;> rfl

@[simp] theorem onList_unmappedBytes (st : Stats) (normal : Bool) (f : ℕ → ℕ) :
    (st.onList normal f).unmappedBytes = if normal then st.unmappedBytes else f st.unmappedBytes := by
  cases normal <;> rfl

/-- `RemoveFromFreeList` as one update of the state. -/
theorem removeFromFreeList_eq (h : PageHeap) (s : SpanId) :
    removeFromFreeList b h s =
      { h with
        stats := h.stats.onList ((h.spans s).location == .onNormalFreelist)
          (Word.sub 64 · (bytes b (h.spans s).length))
        freeNormal := if (h.spans s).location == .onNormalFreelist ∧
            ¬b.kMaxPages < (h.spans s).length then
          listRemove h.freeNormal ((h.spans s).length - 1) s else h.freeNormal
        freeReturned := if (h.spans s).location != .onNormalFreelist ∧
            ¬b.kMaxPages < (h.spans s).length then
          listRemove h.freeReturned ((h.spans s).length - 1) s else h.freeReturned
        largeNormal := if (h.spans s).location == .onNormalFreelist ∧
            b.kMaxPages < (h.spans s).length then
          h.largeNormal.erase (s, (h.spans s).length) else h.largeNormal
        largeReturned := if (h.spans s).location != .onNormalFreelist ∧
            b.kMaxPages < (h.spans s).length then
          h.largeReturned.erase (s, (h.spans s).length) else h.largeReturned } := by
  unfold removeFromFreeList
  by_cases hk : b.kMaxPages < (h.spans s).length <;>
    cases hn : ((h.spans s).location == .onNormalFreelist) <;>
    simp only [hk, hn, bne, if_true, if_false, Bool.not_true, Bool.not_false, Bool.false_eq_true,
      and_true, and_false, not_true, not_false_eq_true]

/-- `set->insert` only reads the spans. -/
theorem setInsert_of_spans {h h' : PageHeap} (hsp : h'.spans = h.spans) (x : SpanId × ℕ) :
    ∀ l, h'.setInsert x l = h.setInsert x l
  | [] => rfl
  | y :: ys => by rw [setInsert, setInsert, setInsert_of_spans hsp x ys, bestFitLess, bestFitLess, hsp]

/-- `PrependToFreeList` as one update of the state. -/
theorem prependToFreeList_eq (h : PageHeap) (s : SpanId) :
    prependToFreeList b h s =
      { h with
        stats := h.stats.onList ((h.spans s).location == .onNormalFreelist)
          (Word.add 64 · (bytes b (h.spans s).length))
        freeNormal := if (h.spans s).location == .onNormalFreelist ∧
            ¬b.kMaxPages < (h.spans s).length then
          listPrepend h.freeNormal ((h.spans s).length - 1) s else h.freeNormal
        freeReturned := if (h.spans s).location != .onNormalFreelist ∧
            ¬b.kMaxPages < (h.spans s).length then
          listPrepend h.freeReturned ((h.spans s).length - 1) s else h.freeReturned
        largeNormal := if (h.spans s).location == .onNormalFreelist ∧
            b.kMaxPages < (h.spans s).length then
          h.setInsert (s, (h.spans s).length) h.largeNormal else h.largeNormal
        largeReturned := if (h.spans s).location != .onNormalFreelist ∧
            b.kMaxPages < (h.spans s).length then
          h.setInsert (s, (h.spans s).length) h.largeReturned else h.largeReturned } := by
  unfold prependToFreeList
  by_cases hk : b.kMaxPages < (h.spans s).length
  · -- the sets: `setInsert` of the state with the new counter is that of `h`
    cases hn : ((h.spans s).location == .onNormalFreelist) <;>
      simp only [hk, hn, bne, if_true, if_false, Bool.not_true, Bool.not_false,
        Bool.false_eq_true, and_true] <;>
      congr 1 <;> exact setInsert_of_spans (by rfl) _ _
  · cases hn : ((h.spans s).location == .onNormalFreelist) <;>
      simp only [hk, hn, bne, if_true, if_false, Bool.not_true, Bool.not_false,
        Bool.false_eq_true, and_true, and_false, not_false_eq_true]

theorem removeFromFreeList_lists (h : PageHeap) (s : SpanId) (normal : Bool) :
    (removeFromFreeList b h s).lists normal =
      if normal = ((h.spans s).location == .onNormalFreelist) ∧
          ¬b.kMaxPages < (h.spans s).length then
        listRemove (h.lists normal) ((h.spans s).length - 1) s
      else h.lists normal := by
  rw [removeFromFreeList_eq]
  cases normal <;> cases hn : ((h.spans s).location == .onNormalFreelist) <;> simp [lists, hn, bne]

theorem removeFromFreeList_sets (h : PageHeap) (s : SpanId) (normal : Bool) :
    (removeFromFreeList b h s).sets normal =
      if normal = ((h.spans s).location == .onNormalFreelist) ∧
          b.kMaxPages < (h.spans s).length then
        (h.sets normal).erase (s, (h.spans s).length)
      else h.sets normal := by
  rw [removeFromFreeList_eq]
  cases normal <;> cases hn : ((h.spans s).location == .onNormalFreelist) <;> simp [sets, hn, bne]

theorem prependToFreeList_lists (h : PageHeap) (s : SpanId) (normal : Bool) :
    (prependToFreeList b h s).lists normal =
      if normal = ((h.spans s).location == .onNormalFreelist) ∧
          ¬b.kMaxPages < (h.spans s).length then
        listPrepend (h.lists normal) ((h.spans s).length - 1) s
      else h.lists normal := by
  rw [prependToFreeList_eq]
  cases normal <;> cases hn : ((h.spans s).location == .onNormalFreelist) <;> simp [lists, hn, bne]

theorem prependToFreeList_sets (h : PageHeap) (s : SpanId) (normal : Bool) :
    (prependToFreeList b h s).sets normal =
      if normal = ((h.spans s).location == .onNormalFreelist) ∧
          b.kMaxPages < (h.spans s).length then
        h.setInsert (s, (h.spans s).length) (h.sets normal)
      else h.sets normal := by
  rw [prependToFreeList_eq]
  cases normal <;> cases hn : ((h.spans s).location == .onNormalFreelist) <;> simp [sets, hn, bne]

/-! ## Lists, sets and their pages -/

theorem listRemove_apply (lists : ℕ → List SpanId) (i : ℕ) (s : SpanId) (j : ℕ) :
    listRemove lists i s j = if j = i then (lists i).erase s else lists j := by
  unfold listRemove
  split_ifs with hj
  · rw [hj, Function.update_self]
  · exact Function.update_of_ne hj _ _

theorem listPrepend_apply (lists : ℕ → List SpanId) (i : ℕ) (s : SpanId) (j : ℕ) :
    listPrepend lists i s j = if j = i then s :: lists i else lists j := by
  unfold listPrepend
  split_ifs with hj
  · rw [hj, Function.update_self]
  · exact Function.update_of_ne hj _ _

/-- Changing the list `i < kMaxPages` changes the pages counted by `i + 1`
    for each span it gains or loses. -/
theorem listedPages_update (lists : ℕ → List SpanId) {i : ℕ} (hi : i < b.kMaxPages)
    (l : List SpanId) (set : List (SpanId × ℕ)) :
    listedPages b (Function.update lists i l) set + (lists i).length * (i + 1) =
      listedPages b lists set + l.length * (i + 1) := by
  have hmem : i ∈ Finset.range b.kMaxPages := Finset.mem_range.2 hi
  have hrest : ∑ j ∈ (Finset.range b.kMaxPages).erase i,
      (Function.update lists i l j).length * (j + 1) =
        ∑ j ∈ (Finset.range b.kMaxPages).erase i, (lists j).length * (j + 1) :=
    Finset.sum_congr rfl fun j hj => by rw [Function.update_of_ne (Finset.ne_of_mem_erase hj)]
  unfold listedPages
  rw [← Finset.add_sum_erase _ _ hmem, ← Finset.add_sum_erase _ _ hmem, hrest,
    Function.update_self]
  omega

theorem listedPages_listRemove {lists : ℕ → List SpanId} {i : ℕ} {s : SpanId}
    (hi : i < b.kMaxPages) (hs : s ∈ lists i) (set : List (SpanId × ℕ)) :
    listedPages b (listRemove lists i s) set + (i + 1) = listedPages b lists set := by
  have hlen := List.length_erase_of_mem hs
  have hpos := List.length_pos_of_mem hs
  have := listedPages_update lists hi ((lists i).erase s) set
  rw [hlen] at this
  unfold listRemove
  have hmul : (lists i).length * (i + 1) = ((lists i).length - 1) * (i + 1) + (i + 1) := by
    rw [← Nat.succ_mul, Nat.succ_eq_add_one, Nat.sub_add_cancel hpos]
  omega

theorem listedPages_listPrepend {lists : ℕ → List SpanId} {i : ℕ} (hi : i < b.kMaxPages)
    (s : SpanId) (set : List (SpanId × ℕ)) :
    listedPages b (listPrepend lists i s) set = listedPages b lists set + (i + 1) := by
  have := listedPages_update lists hi (s :: lists i) set
  rw [List.length_cons, Nat.succ_mul] at this
  unfold listPrepend
  omega

theorem listedPages_erase (lists : ℕ → List SpanId) {set : List (SpanId × ℕ)} {x : SpanId × ℕ}
    (hx : x ∈ set) : listedPages b lists (set.erase x) + x.2 = listedPages b lists set := by
  have := ((List.perm_cons_erase hx).map Prod.snd).sum_eq
  rw [List.map_cons, List.sum_cons] at this
  unfold listedPages
  omega

/-- `set->insert` puts `x` somewhere in the set. -/
theorem setInsert_perm (h : PageHeap) (x : SpanId × ℕ) :
    ∀ l, (h.setInsert x l).Perm (x :: l)
  | [] => List.Perm.refl _
  | y :: ys => by
    unfold setInsert
    split_ifs
    · exact List.Perm.refl _
    · exact ((setInsert_perm h x ys).cons y).trans (List.Perm.swap x y ys)

theorem mem_setInsert {h : PageHeap} {x z : SpanId × ℕ} {l : List (SpanId × ℕ)} :
    z ∈ h.setInsert x l ↔ z = x ∨ z ∈ l := by
  rw [(setInsert_perm h x l).mem_iff, List.mem_cons]

theorem listedPages_setInsert (lists : ℕ → List SpanId) (h : PageHeap) (x : SpanId × ℕ)
    (set : List (SpanId × ℕ)) :
    listedPages b lists (h.setInsert x set) = listedPages b lists set + x.2 := by
  have := ((setInsert_perm h x set).map Prod.snd).sum_eq
  rw [List.map_cons, List.sum_cons] at this
  unfold listedPages
  omega

theorem bestFitLess_iff {h : PageHeap} {x y : SpanId × ℕ} :
    h.bestFitLess x y = true ↔
      x.2 < y.2 ∨ x.2 = y.2 ∧ (h.spans x.1).start < (h.spans y.1).start := by
  simp [bestFitLess]

/-- `set->insert` keeps the set ordered when `x` is comparable with all its
    elements. -/
theorem pairwise_setInsert {h : PageHeap} {x : SpanId × ℕ} :
    ∀ {l : List (SpanId × ℕ)}, (∀ y ∈ l, h.bestFitLess x y ∨ h.bestFitLess y x) →
      (l.Pairwise fun x y => h.bestFitLess x y) →
        (h.setInsert x l).Pairwise fun x y => h.bestFitLess x y
  | [], _, _ => List.pairwise_singleton _ x
  | y :: ys, htotal, hl => by
    obtain ⟨hy, hys⟩ := List.pairwise_cons.1 hl
    unfold setInsert
    split_ifs with hxy
    · -- `x` goes first: it is below `y`, so below all that follows `y`
      refine List.pairwise_cons.2 ⟨fun z hz => ?_, hl⟩
      rcases List.mem_cons.1 hz with rfl | hz
      · exact hxy
      · have hyz := hy z hz
        rw [bestFitLess_iff] at hxy hyz ⊢
        omega
    · refine List.pairwise_cons.2 ⟨fun z hz => ?_,
        pairwise_setInsert (fun z hz => htotal z (List.mem_cons_of_mem y hz)) hys⟩
      rcases mem_setInsert.1 hz with rfl | hz
      · exact (htotal y List.mem_cons_self).resolve_left hxy
      · exact hy z hz

/-- Changing the span `s` of the holes changes their pages by the change of
    its length. -/
theorem sum_holes_update {H : Finset SpanId} {s : SpanId} (hs : s ∈ H) (spans' spans : SpanId → Span)
    (hsp : ∀ t, t ≠ s → spans' t = spans t) (c : ℕ) :
    ∑ t ∈ H, (spans' t).length * c + (spans s).length * c =
      ∑ t ∈ H, (spans t).length * c + (spans' s).length * c := by
  have hrest : ∑ t ∈ H.erase s, (spans' t).length * c = ∑ t ∈ H.erase s, (spans t).length * c :=
    Finset.sum_congr rfl fun t ht => by rw [hsp t (Finset.ne_of_mem_erase ht)]
  rw [← Finset.add_sum_erase H _ hs, ← Finset.add_sum_erase H _ hs, hrest]
  omega

/-- Joining the span `o` into `s`, which then holds the pages of both,
    covers the same pages. -/
theorem covered_join {h h' : PageHeap} {s o : SpanId} {sp : Span}
    (hsp : h'.spans = Function.update h.spans s sp)
    (hal : h'.spanAllocator = h.spanAllocator.delete o) (hs : h.spanAllocator.Live s)
    (ho : h.spanAllocator.Live o) (hne : o ≠ s)
    (hunion : ∀ p, sp.start ≤ p ∧ p < sp.start + sp.length ↔
      (h.spans s).start ≤ p ∧ p < (h.spans s).start + (h.spans s).length ∨
        (h.spans o).start ≤ p ∧ p < (h.spans o).start + (h.spans o).length) (p : ℕ) :
    Covered h' p ↔ Covered h p := by
  unfold Covered
  rw [hsp, hal]
  constructor
  · rintro ⟨u, hu, h1, h2⟩
    rw [SpanAllocator.live_delete] at hu
    by_cases hus : u = s
    · subst hus
      rw [Function.update_self] at h1 h2
      rcases (hunion p).1 ⟨h1, h2⟩ with hin | hin
      exacts [⟨u, hs, hin⟩, ⟨o, ho, hin⟩]
    · rw [Function.update_of_ne hus] at h1 h2
      exact ⟨u, hu.1, h1, h2⟩
  · rintro ⟨u, hu, h1, h2⟩
    by_cases hus : u = s
    · subst hus
      exact ⟨u, SpanAllocator.live_delete.2 ⟨hu, hne.symm⟩,
        by rw [Function.update_self]; exact (hunion p).2 (Or.inl ⟨h1, h2⟩)⟩
    · by_cases huo : u = o
      · -- the pages of `o` are pages of `s` now
        subst huo
        exact ⟨s, SpanAllocator.live_delete.2 ⟨hs, hne.symm⟩,
          by rw [Function.update_self]; exact (hunion p).2 (Or.inr ⟨h1, h2⟩)⟩
      · exact ⟨u, SpanAllocator.live_delete.2 ⟨hu, huo⟩,
          by rw [Function.update_of_ne hus]; exact ⟨h1, h2⟩⟩

/-! ## Bytes -/

theorem pages_mul_pageSize (b : Build) : 2 ^ (kAddressBits - b.pageShift) * 2 ^ b.pageShift = 2 ^ kAddressBits := by
  rw [← Nat.pow_add, Nat.sub_add_cancel (le_trans b.pageShift_le (by decide))]

theorem pages_lt (b : Build) : 2 ^ (kAddressBits - b.pageShift) < 2 ^ 64 :=
  lt_of_le_of_lt (Nat.pow_le_pow_right (by decide) (Nat.sub_le _ _)) (by decide)

/-- The bytes of a length within the pagemap do not wrap around. -/
theorem bytes_eq {len : ℕ} (hlen : len ≤ 2 ^ (kAddressBits - b.pageShift)) :
    bytes b len = len * 2 ^ b.pageShift := by
  have hle : len * 2 ^ b.pageShift ≤ 2 ^ kAddressBits :=
    (Nat.mul_le_mul_right _ hlen).trans_eq (pages_mul_pageSize b)
  unfold bytes
  rw [Nat.shiftLeft_eq, Nat.mod_eq_of_lt (lt_of_le_of_lt hle (by decide))]

@[simp] theorem removeFromFreeList_pagemap (h : PageHeap) (s : SpanId) :
    (removeFromFreeList b h s).pagemap = h.pagemap := by
  rw [removeFromFreeList_eq]

@[simp] theorem removeFromFreeList_systemTaken (h : PageHeap) (s : SpanId) :
    (removeFromFreeList b h s).systemTaken = h.systemTaken := by
  rw [removeFromFreeList_eq]

@[simp] theorem prependToFreeList_pagemap (h : PageHeap) (s : SpanId) :
    (prependToFreeList b h s).pagemap = h.pagemap := by
  rw [prependToFreeList_eq]

@[simp] theorem prependToFreeList_systemTaken (h : PageHeap) (s : SpanId) :
    (prependToFreeList b h s).systemTaken = h.systemTaken := by
  rw [prependToFreeList_eq]

theorem bestFitLess_of_spans {h h' : PageHeap} (hsp : h'.spans = h.spans) :
    h'.bestFitLess = h.bestFitLess := by
  funext x y
  rw [bestFitLess, bestFitLess, hsp]

/-- Taking the listed span `s` off its list takes its pages off the count
    of its location. -/
theorem listedPages_removeFromFreeList {h : PageHeap} {s : SpanId} (hl : Listed b h s)
    (hlen : 1 ≤ (h.spans s).length) (normal : Bool) :
    listedPages b ((removeFromFreeList b h s).lists normal) ((removeFromFreeList b h s).sets normal) +
        (if normal = ((h.spans s).location == .onNormalFreelist) then (h.spans s).length else 0) =
      listedPages b (h.lists normal) (h.sets normal) := by
  rw [removeFromFreeList_lists, removeFromFreeList_sets]
  unfold Listed at hl
  by_cases hc : normal = ((h.spans s).location == .onNormalFreelist)
  · subst hc
    by_cases hk : b.kMaxPages < (h.spans s).length
    · rw [if_pos hk] at hl
      simp only [hk, not_true_eq_false, and_false, if_false, and_self, if_true]
      exact listedPages_erase _ hl
    · rw [if_neg hk] at hl
      simp only [hk, not_false_eq_true, and_self, if_true, and_false, if_false]
      have := listedPages_listRemove (show (h.spans s).length - 1 < b.kMaxPages by omega) hl
        (h.sets ((h.spans s).location == .onNormalFreelist))
      omega
  · simp [hc]

/-- Putting `s` on its list adds its pages to the count of its location. -/
theorem listedPages_prependToFreeList {h : PageHeap} {s : SpanId} (hlen : 1 ≤ (h.spans s).length)
    (normal : Bool) :
    listedPages b ((prependToFreeList b h s).lists normal) ((prependToFreeList b h s).sets normal) =
      listedPages b (h.lists normal) (h.sets normal) +
        (if normal = ((h.spans s).location == .onNormalFreelist) then (h.spans s).length else 0) := by
  rw [prependToFreeList_lists, prependToFreeList_sets]
  by_cases hc : normal = ((h.spans s).location == .onNormalFreelist)
  · by_cases hk : b.kMaxPages < (h.spans s).length
    · simp only [hc, hk, not_true_eq_false, and_false, if_false, and_self, if_true]
      exact listedPages_setInsert _ h _ _
    · simp only [hc, hk, not_false_eq_true, and_self, if_true, and_false, if_false]
      rw [listedPages_listPrepend (show (h.spans s).length - 1 < b.kMaxPages by omega)]
      omega
  · simp [hc]

namespace FreeOn

variable {h h' : PageHeap} {H H' : Finset SpanId} {normal : Bool} {s : SpanId}

theorem of_spans (hf : FreeOn h H normal s) (hsp : h'.spans s = h.spans s)
    (hal : h'.spanAllocator.Live s) : FreeOn h' H normal s :=
  ⟨hal, hf.not_mem, hsp ▸ hf.ne_inUse, hsp ▸ hf.normal_eq⟩

theorem of_not_mem (hf : FreeOn h H normal s) (hs : s ∉ H') : FreeOn h H' normal s :=
  ⟨hf.live, hs, hf.ne_inUse, hf.normal_eq⟩

end FreeOn

namespace Layout

variable {spans : SpanId → Span} {live : SpanId → Prop} {pm : ℕ → Option SpanId} {s o : SpanId}

/-- The entry on the page before a span names the span that ends there. -/
theorem prev_neighbour (hL : Layout b spans live pm) (hs : live s)
    (ho : pm ((spans s).start - 1) = some o) :
    live o ∧ o ≠ s ∧ (spans o).start + (spans o).length = (spans s).start := by
  obtain ⟨u, hu, h1, h2⟩ := hL.covered _ _ ho
  obtain ⟨hs1, -, -⟩ := hL.bounds s hs
  have hus : u ≠ s := by
    rintro rfl
    omega
  -- `u` holds the page before `s` and does not overlap it, so it ends at `s`
  have hend : (spans u).start + (spans u).length = (spans s).start := by
    rcases hL.disjoint u s hu hs hus with hd | hd <;> omega
  have hlast := hL.last u hu
  rw [hend, ho, Option.some.injEq] at hlast
  subst hlast
  exact ⟨hu, hus, hend⟩

/-- The entry on the page after a span names the span that starts there. -/
theorem next_neighbour (hL : Layout b spans live pm) (hs : live s)
    (ho : pm ((spans s).start + (spans s).length) = some o) :
    live o ∧ o ≠ s ∧ (spans o).start = (spans s).start + (spans s).length := by
  obtain ⟨u, hu, h1, h2⟩ := hL.covered _ _ ho
  have hus : u ≠ s := by
    rintro rfl
    omega
  have hstart : (spans u).start = (spans s).start + (spans s).length := by
    rcases hL.disjoint u s hu hs hus with hd | hd <;> omega
  have hfirst := hL.first u hu
  rw [hstart, ho, Option.some.injEq] at hfirst
  subst hfirst
  exact ⟨hu, hus, hstart⟩

/-- A span that takes in the span `o` ending where it starts, and is
    recorded at its new first page. -/
theorem joinPrev (hL : Layout b spans live pm) (hs : live s) (ho : live o) (hne : o ≠ s)
    (hadj : (spans o).start + (spans o).length = (spans s).start) {sp : Span}
    (hstart : sp.start = (spans o).start) (hlen : sp.length = (spans s).length + (spans o).length) :
    Layout b (Function.update spans s sp) (fun t => live t ∧ t ≠ o)
      (Function.update pm (spans o).start (some s)) := by
  obtain ⟨hs1, hs2, hs3⟩ := hL.bounds s hs
  obtain ⟨ho1, ho2, -⟩ := hL.bounds o ho
  -- a span other than `s` and `o` lies outside both, hence away from `start o`
  have hout : ∀ t, live t → t ≠ s → t ≠ o →
      ((spans t).start + (spans t).length ≤ (spans o).start ∨
        (spans s).start + (spans s).length ≤ (spans t).start) ∧
      (spans t).start ≠ (spans o).start ∧
      (spans t).start + (spans t).length - 1 ≠ (spans o).start := by
    intro t ht hts hto
    have := hL.bounds t ht
    have := hL.disjoint t s ht hs hts
    have := hL.disjoint t o ht ho hto
    omega
  refine ⟨?_, ?_, ?_, ?_, ?_⟩
  · rintro t ⟨ht, -⟩
    by_cases hts : t = s
    · subst hts
      rw [Function.update_self, hstart, hlen]
      omega
    · rw [Function.update_of_ne hts]
      exact hL.bounds t ht
  · rintro t u ⟨ht, hto⟩ ⟨hu, huo⟩ htu
    by_cases hts : t = s
    · subst hts
      have := hout u hu (Ne.symm htu) huo
      rw [Function.update_self, Function.update_of_ne (Ne.symm htu), hstart, hlen]
      omega
    · by_cases hus : u = s
      · subst hus
        have := hout t ht hts hto
        rw [Function.update_self, Function.update_of_ne hts, hstart, hlen]
        omega
      · rw [Function.update_of_ne hts, Function.update_of_ne hus]
        exact hL.disjoint t u ht hu htu
  · rintro t ⟨ht, hto⟩
    by_cases hts : t = s
    · subst hts
      rw [Function.update_self, hstart, Function.update_self]
    · rw [Function.update_of_ne hts, Function.update_of_ne (hout t ht hts hto).2.1]
      exact hL.first t ht
  · rintro t ⟨ht, hto⟩
    by_cases hts : t = s
    · -- the last page of the joined span is the last page of `s`
      subst hts
      rw [Function.update_self, hstart, hlen,
        show (spans o).start + ((spans t).length + (spans o).length) - 1 =
          (spans t).start + (spans t).length - 1 by omega,
        Function.update_of_ne (by omega)]
      exact hL.last t hs
    · rw [Function.update_of_ne hts, Function.update_of_ne (hout t ht hts hto).2.2]
      exact hL.last t ht
  · intro p t hp
    by_cases hpo : p = (spans o).start
    · refine ⟨s, ⟨hs, hne.symm⟩, ?_⟩
      rw [Function.update_self, hstart, hlen]
      omega
    · rw [Function.update_of_ne hpo] at hp
      obtain ⟨u, hu, h1, h2⟩ := hL.covered p t hp
      by_cases hus : u = s
      · subst hus
        refine ⟨u, ⟨hu, hne.symm⟩, ?_⟩
        rw [Function.update_self, hstart, hlen]
        omega
      · by_cases huo : u = o
        · -- the pages of `o` are now pages of `s`
          subst huo
          refine ⟨s, ⟨hs, hne.symm⟩, ?_⟩
          rw [Function.update_self, hstart, hlen]
          omega
        · exact ⟨u, ⟨hu, huo⟩, by rw [Function.update_of_ne hus]; exact ⟨h1, h2⟩⟩

/-- A span that takes in the span `o` starting where it ends, and is recorded
    at its new last page. -/
theorem joinNext (hL : Layout b spans live pm) (hs : live s) (ho : live o) (hne : o ≠ s)
    (hadj : (spans s).start + (spans s).length = (spans o).start) {sp : Span}
    (hstart : sp.start = (spans s).start) (hlen : sp.length = (spans s).length + (spans o).length) :
    Layout b (Function.update spans s sp) (fun t => live t ∧ t ≠ o)
      (Function.update pm ((spans o).start + (spans o).length - 1) (some s)) := by
  obtain ⟨hs1, hs2, hs3⟩ := hL.bounds s hs
  obtain ⟨ho1, ho2, ho3⟩ := hL.bounds o ho
  have hout : ∀ t, live t → t ≠ s → t ≠ o →
      ((spans t).start + (spans t).length ≤ (spans s).start ∨
        (spans o).start + (spans o).length ≤ (spans t).start) ∧
      (spans t).start ≠ (spans o).start + (spans o).length - 1 ∧
      (spans t).start + (spans t).length - 1 ≠ (spans o).start + (spans o).length - 1 := by
    intro t ht hts hto
    have := hL.bounds t ht
    have := hL.disjoint t s ht hs hts
    have := hL.disjoint t o ht ho hto
    omega
  refine ⟨?_, ?_, ?_, ?_, ?_⟩
  · rintro t ⟨ht, -⟩
    by_cases hts : t = s
    · subst hts
      rw [Function.update_self, hstart, hlen]
      omega
    · rw [Function.update_of_ne hts]
      exact hL.bounds t ht
  · rintro t u ⟨ht, hto⟩ ⟨hu, huo⟩ htu
    by_cases hts : t = s
    · subst hts
      have := hout u hu (Ne.symm htu) huo
      rw [Function.update_self, Function.update_of_ne (Ne.symm htu), hstart, hlen]
      omega
    · by_cases hus : u = s
      · subst hus
        have := hout t ht hts hto
        rw [Function.update_self, Function.update_of_ne hts, hstart, hlen]
        omega
      · rw [Function.update_of_ne hts, Function.update_of_ne hus]
        exact hL.disjoint t u ht hu htu
  · rintro t ⟨ht, hto⟩
    by_cases hts : t = s
    · -- the first page of the joined span is the first page of `s`
      subst hts
      rw [Function.update_self, hstart, Function.update_of_ne (by omega)]
      exact hL.first t hs
    · rw [Function.update_of_ne hts, Function.update_of_ne (hout t ht hts hto).2.1]
      exact hL.first t ht
  · rintro t ⟨ht, hto⟩
    by_cases hts : t = s
    · subst hts
      rw [Function.update_self, hstart, hlen,
        show (spans t).start + ((spans t).length + (spans o).length) - 1 =
          (spans o).start + (spans o).length - 1 by omega, Function.update_self]
    · rw [Function.update_of_ne hts, Function.update_of_ne (hout t ht hts hto).2.2]
      exact hL.last t ht
  · intro p t hp
    by_cases hpo : p = (spans o).start + (spans o).length - 1
    · refine ⟨s, ⟨hs, hne.symm⟩, ?_⟩
      rw [Function.update_self, hstart, hlen]
      omega
    · rw [Function.update_of_ne hpo] at hp
      obtain ⟨u, hu, h1, h2⟩ := hL.covered p t hp
      by_cases hus : u = s
      · subst hus
        refine ⟨u, ⟨hu, hne.symm⟩, ?_⟩
        rw [Function.update_self, hstart, hlen]
        omega
      · by_cases huo : u = o
        · subst huo
          refine ⟨s, ⟨hs, hne.symm⟩, ?_⟩
          rw [Function.update_self, hstart, hlen]
          omega
        · exact ⟨u, ⟨hu, huo⟩, by rw [Function.update_of_ne hus]; exact ⟨h1, h2⟩⟩

end Layout

namespace Inv

variable {h : PageHeap} {H : Finset SpanId} {s : SpanId}

/-- A span on a list is on the list of its location and length. -/
theorem eq_of_mem_lists (hinv : Inv b h H) {normal : Bool} {i : ℕ} (hs : s ∈ h.lists normal i) :
    normal = ((h.spans s).location == .onNormalFreelist) ∧ i = (h.spans s).length - 1 ∧
      ¬b.kMaxPages < (h.spans s).length := by
  obtain ⟨hf, hlen, hk⟩ := hinv.onList normal i s hs
  exact ⟨hf.normal_eq.symm, by omega, by omega⟩

theorem eq_of_mem_sets (hinv : Inv b h H) {normal : Bool} {x : SpanId × ℕ} (hx : x ∈ h.sets normal) :
    normal = ((h.spans x.1).location == .onNormalFreelist) ∧ x = (x.1, (h.spans x.1).length) ∧
      b.kMaxPages < (h.spans x.1).length := by
  obtain ⟨hf, hlen, hk⟩ := hinv.onSet normal x hx
  exact ⟨hf.normal_eq.symm, Prod.ext rfl hlen, hlen ▸ hk⟩

theorem nodup_sets (hinv : Inv b h H) (normal : Bool) : (h.sets normal).Nodup :=
  (hinv.sorted normal).imp fun hxy he => by
    subst he
    simp [bestFitLess] at hxy

theorem freeBytes_le (hinv : Inv b h H) : h.stats.freeBytes + h.stats.unmappedBytes < 2 ^ 64 :=
  lt_of_le_of_lt (le_trans (by unfold heldBytes; omega) hinv.held) hinv.taken

/-- `RemoveFromFreeList` takes the bytes of a listed span off the counter of
    its location. -/
theorem removeFromFreeList_stats (hinv : Inv b h H) (hlive : h.spanAllocator.Live s) (hs : s ∉ H)
    (hloc : (h.spans s).location ≠ .inUse) :
    (removeFromFreeList b h s).stats.freeBytes +
        (if (h.spans s).location = .onNormalFreelist then (h.spans s).length * 2 ^ b.pageShift
          else 0) = h.stats.freeBytes ∧
      (removeFromFreeList b h s).stats.unmappedBytes +
        (if (h.spans s).location = .onNormalFreelist then 0
          else (h.spans s).length * 2 ^ b.pageShift) = h.stats.unmappedBytes := by
  obtain ⟨-, hlen, hend⟩ := hinv.layout.bounds s hlive
  have hpages := listedPages_removeFromFreeList (hinv.listed s hlive hs hloc) hlen
  have hbytes : bytes b (h.spans s).length = (h.spans s).length * 2 ^ b.pageShift :=
    bytes_eq (by omega)
  have hlt := hinv.freeBytes_le
  have hfree := hinv.free
  have hun := hinv.unmapped
  have hp1 := hpages true
  have hp2 := hpages false
  rw [removeFromFreeList_eq]
  by_cases hn : (h.spans s).location = .onNormalFreelist
  · simp only [hn, beq_self_eq_true, onList_freeBytes, onList_unmappedBytes, if_true,
      Bool.false_eq_true, if_false, Nat.add_zero, hbytes] at hp1 hp2 ⊢
    refine ⟨?_, trivial⟩
    have hle : (h.spans s).length * 2 ^ b.pageShift ≤ h.stats.freeBytes := by
      rw [hfree, ← hp1, Nat.add_mul]
      exact Nat.le_add_left _ _
    rw [Word.sub_of_le hle (by omega)]
    omega
  · have hf : ((h.spans s).location == .onNormalFreelist) = false := by simpa using hn
    simp only [hn, hf, onList_freeBytes, onList_unmappedBytes, if_true, Bool.false_eq_true,
      if_false, Nat.add_zero, hbytes] at hp1 hp2 ⊢
    refine ⟨trivial, ?_⟩
    have hle : (h.spans s).length * 2 ^ b.pageShift ≤ h.stats.unmappedBytes := by
      rw [hun, ← hp2, Nat.add_mul]
      exact Nat.le_add_left _ _
    rw [Word.sub_of_le hle (by omega)]
    omega

/-- `RemoveFromFreeList` makes a listed span a hole. -/
theorem removeFromFreeList (hinv : Inv b h H) (hlive : h.spanAllocator.Live s) (hs : s ∉ H)
    (hloc : (h.spans s).location ≠ .inUse) :
    Inv b (removeFromFreeList b h s) (insert s H) := by
  have hsp := removeFromFreeList_spans b h s
  have hal := removeFromFreeList_spanAllocator b h s
  obtain ⟨-, hlen, -⟩ := hinv.layout.bounds s hlive
  -- the other spans stay on their lists and sets, and `s` is on none
  have hlists : ∀ c i t, t ≠ s → (t ∈ (PageHeap.removeFromFreeList b h s).lists c i ↔ t ∈ h.lists c i) := by
    intro c i t hts
    rw [removeFromFreeList_lists]
    split_ifs
    · rw [listRemove_apply]
      split_ifs with hi
      · rw [hi]
        exact List.mem_erase_of_ne hts
      · rfl
    · rfl
  have hsets : ∀ c x, x.1 ≠ s → (x ∈ (PageHeap.removeFromFreeList b h s).sets c ↔ x ∈ h.sets c) := by
    intro c x hxs
    rw [removeFromFreeList_sets]
    split_ifs
    · exact List.mem_erase_of_ne fun he => hxs (by rw [he])
    · rfl
  have hnot_lists : ∀ c i, s ∉ (PageHeap.removeFromFreeList b h s).lists c i := by
    intro c i hmem
    rw [removeFromFreeList_lists] at hmem
    split_ifs at hmem with hc
    · rw [listRemove_apply] at hmem
      split_ifs at hmem with hi
      · exact (hinv.nodup c _).not_mem_erase hmem
      · exact hi (hinv.eq_of_mem_lists hmem).2.1
    · obtain ⟨h1, -, h3⟩ := hinv.eq_of_mem_lists hmem
      exact hc ⟨h1, h3⟩
  have hnot_sets : ∀ c x, x ∈ (PageHeap.removeFromFreeList b h s).sets c → x.1 ≠ s := by
    intro c x hmem hxs
    rw [removeFromFreeList_sets] at hmem
    split_ifs at hmem with hc
    · obtain ⟨-, hx, -⟩ := hinv.eq_of_mem_sets (List.erase_subset hmem)
      rw [hx, hxs] at hmem
      exact (hinv.nodup_sets c).not_mem_erase hmem
    · obtain ⟨h1, hx, h3⟩ := hinv.eq_of_mem_sets hmem
      rw [hxs] at h1 h3
      exact hc ⟨h1, h3⟩
  have hstats := hinv.removeFromFreeList_stats hlive hs hloc
  have hpages := listedPages_removeFromFreeList (hinv.listed s hlive hs hloc) hlen
  refine ⟨?_, ?_, ?_, ?_, ?_, ?_, ?_, ?_, ?_, ?_, ?_, ?_⟩
  · rw [hsp, hal, removeFromFreeList_pagemap]
    exact hinv.layout
  · intro t ht
    rw [hal]
    rcases Finset.mem_insert.1 ht with rfl | ht
    exacts [hlive, hinv.holes_live t ht]
  · intro c i t ht
    have hts : t ≠ s := fun he => hnot_lists c i (he ▸ ht)
    obtain ⟨hf, h1, h2⟩ := hinv.onList c i t ((hlists c i t hts).1 ht)
    rw [hsp]
    exact ⟨(hf.of_not_mem (by simp [hts, hf.not_mem])).of_spans (by rw [hsp]) (by rw [hal]; exact hf.live),
      h1, h2⟩
  · intro c x hx
    have hxs := hnot_sets c x hx
    obtain ⟨hf, h1, h2⟩ := hinv.onSet c x ((hsets c x hxs).1 hx)
    rw [hsp]
    exact ⟨(hf.of_not_mem (by simp [hxs, hf.not_mem])).of_spans (by rw [hsp]) (by rw [hal]; exact hf.live),
      h1, h2⟩
  · intro t ht htH hloc'
    rw [hal] at ht
    rw [hsp] at hloc'
    have hts : t ≠ s := fun he => htH (he ▸ Finset.mem_insert_self s H)
    have hl := hinv.listed t ht (fun h' => htH (Finset.mem_insert_of_mem h')) hloc'
    unfold Listed at hl ⊢
    rw [hsp]
    split_ifs at hl ⊢
    · exact (hsets _ _ hts).2 hl
    · exact (hlists _ _ _ hts).2 hl
  · intro c i
    rw [removeFromFreeList_lists]
    split_ifs
    · rw [listRemove_apply]
      split_ifs
      · exact (hinv.nodup c _).erase s
      · exact hinv.nodup c i
    · exact hinv.nodup c i
  · intro c
    rw [bestFitLess_of_spans hsp, removeFromFreeList_sets]
    split_ifs
    · exact (hinv.sorted c).sublist List.erase_sublist
    · exact hinv.sorted c
  · have hp := hpages true
    have hf := hinv.free
    by_cases hn : (h.spans s).location = .onNormalFreelist
    · simp only [hn, beq_self_eq_true, if_true] at hstats hp
      rw [← hp, Nat.add_mul] at hf
      omega
    · simp only [hn, if_false, beq_eq_false_iff_ne.2 hn, Bool.true_eq_false, Nat.add_zero]
        at hstats hp
      rw [← hp] at hf
      omega
  · have hp := hpages false
    have hu := hinv.unmapped
    by_cases hn : (h.spans s).location = .onNormalFreelist
    · simp only [hn, beq_self_eq_true, if_true, Bool.false_eq_true, if_false, Nat.add_zero]
        at hstats hp
      rw [← hp] at hu
      omega
    · simp only [hn, if_false, beq_eq_false_iff_ne.2 hn, if_true] at hstats hp
      rw [← hp, Nat.add_mul] at hu
      omega
  · have hheld := hinv.held
    unfold heldBytes at hheld ⊢
    rw [Finset.sum_insert hs, hsp, removeFromFreeList_systemTaken]
    split_ifs at hstats <;> omega
  · rw [removeFromFreeList_systemTaken]
    exact hinv.taken
  · rw [hal]
    exact hinv.allocator

/-- A hole is on no list. -/
theorem not_mem_lists (hinv : Inv b h H) (hs : s ∈ H) (normal : Bool) (i : ℕ) :
    s ∉ h.lists normal i := fun hmem => (hinv.onList normal i s hmem).1.not_mem hs

theorem not_mem_sets (hinv : Inv b h H) (hs : s ∈ H) (normal : Bool) (x : SpanId × ℕ)
    (hx : x ∈ h.sets normal) : x.1 ≠ s := fun he => (hinv.onSet normal x hx).1.not_mem (he ▸ hs)

/-- The bytes of a hole are part of what the heap holds. -/
theorem hole_bytes_le (hinv : Inv b h H) (hs : s ∈ H) :
    h.stats.freeBytes + h.stats.unmappedBytes + (h.spans s).length * 2 ^ b.pageShift < 2 ^ 64 := by
  have hle : (h.spans s).length * 2 ^ b.pageShift ≤
      ∑ t ∈ H, (h.spans t).length * 2 ^ b.pageShift :=
    Finset.single_le_sum (fun t _ => Nat.zero_le ((h.spans t).length * 2 ^ b.pageShift)) hs
  have := hinv.held
  have := hinv.taken
  unfold heldBytes at *
  omega

/-- `PrependToFreeList` adds the bytes of the hole `s` to the counter of its
    location. -/
theorem prependToFreeList_stats (hinv : Inv b h H) (hs : s ∈ H) :
    (prependToFreeList b h s).stats.freeBytes = h.stats.freeBytes +
        (if (h.spans s).location = .onNormalFreelist then (h.spans s).length * 2 ^ b.pageShift
          else 0) ∧
      (prependToFreeList b h s).stats.unmappedBytes = h.stats.unmappedBytes +
        (if (h.spans s).location = .onNormalFreelist then 0
          else (h.spans s).length * 2 ^ b.pageShift) := by
  obtain ⟨-, -, hend⟩ := hinv.layout.bounds s (hinv.holes_live s hs)
  have hbytes : bytes b (h.spans s).length = (h.spans s).length * 2 ^ b.pageShift :=
    bytes_eq (by omega)
  have hlt := hinv.hole_bytes_le hs
  rw [prependToFreeList_eq]
  by_cases hn : (h.spans s).location = .onNormalFreelist
  · simp only [hn, beq_self_eq_true, onList_freeBytes, onList_unmappedBytes, if_true, hbytes,
      Nat.add_zero]
    exact ⟨Word.add_of_lt (by omega), trivial⟩
  · simp only [hn, beq_eq_false_iff_ne.2 hn, onList_freeBytes, onList_unmappedBytes,
      Bool.false_eq_true, if_false, hbytes, Nat.add_zero]
    exact ⟨trivial, Word.add_of_lt (by omega)⟩

/-- `PrependToFreeList` puts a free hole on its list. -/
theorem prependToFreeList (hinv : Inv b h H) (hs : s ∈ H) (hloc : (h.spans s).location ≠ .inUse) :
    Inv b (PageHeap.prependToFreeList b h s) (H.erase s) := by
  have hsp := prependToFreeList_spans b h s
  have hal := prependToFreeList_spanAllocator b h s
  have hlive := hinv.holes_live s hs
  obtain ⟨-, hlen, -⟩ := hinv.layout.bounds s hlive
  -- the lists and sets gain `s`, where it belongs
  have hlists : ∀ c i t, t ∈ (PageHeap.prependToFreeList b h s).lists c i ↔
      t ∈ h.lists c i ∨ t = s ∧ c = ((h.spans s).location == .onNormalFreelist) ∧
        ¬b.kMaxPages < (h.spans s).length ∧ i = (h.spans s).length - 1 := by
    intro c i t
    rw [prependToFreeList_lists]
    split_ifs with hc
    · rw [listPrepend_apply]
      split_ifs with hi
      · subst hi
        simp [hc, or_comm]
      · simp [hi]
    · simp only [iff_self_or]
      rintro ⟨-, h1, h2, -⟩
      exact absurd ⟨h1, h2⟩ hc
  have hsets : ∀ c x, x ∈ (PageHeap.prependToFreeList b h s).sets c ↔
      x ∈ h.sets c ∨ x = (s, (h.spans s).length) ∧
        c = ((h.spans s).location == .onNormalFreelist) ∧ b.kMaxPages < (h.spans s).length := by
    intro c x
    rw [prependToFreeList_sets]
    split_ifs with hc
    · rw [mem_setInsert]
      simp [hc, or_comm]
    · simp only [iff_self_or]
      rintro ⟨-, h1, h2⟩
      exact absurd ⟨h1, h2⟩ hc
  have hfree_s : ∀ c, c = ((h.spans s).location == .onNormalFreelist) →
      FreeOn (PageHeap.prependToFreeList b h s) (H.erase s) c s := fun c hc =>
    ⟨by rw [hal]; exact hlive, Finset.notMem_erase s H, by rw [hsp]; exact hloc,
      by rw [hsp, hc]⟩
  have hfree_t : ∀ c t, FreeOn h H c t → FreeOn (PageHeap.prependToFreeList b h s) (H.erase s) c t :=
    fun c t hf => (hf.of_not_mem fun ht => hf.not_mem (Finset.mem_of_mem_erase ht)).of_spans
      (by rw [hsp]) (by rw [hal]; exact hf.live)
  have hstats := hinv.prependToFreeList_stats hs
  have hpages := @listedPages_prependToFreeList b h s hlen
  refine ⟨?_, ?_, ?_, ?_, ?_, ?_, ?_, ?_, ?_, ?_, ?_, ?_⟩
  · rw [hsp, hal, prependToFreeList_pagemap]
    exact hinv.layout
  · intro t ht
    rw [hal]
    exact hinv.holes_live t (Finset.mem_of_mem_erase ht)
  · intro c i t ht
    rw [hsp]
    rcases (hlists c i t).1 ht with ht | ⟨rfl, hc, hk, hi⟩
    · obtain ⟨hf, h1, h2⟩ := hinv.onList c i t ht
      exact ⟨hfree_t c t hf, h1, h2⟩
    · exact ⟨hfree_s c hc, by omega, by omega⟩
  · intro c x hx
    rw [hsp]
    rcases (hsets c x).1 hx with hx | ⟨rfl, hc, hk⟩
    · obtain ⟨hf, h1, h2⟩ := hinv.onSet c x hx
      exact ⟨hfree_t c x.1 hf, h1, h2⟩
    · exact ⟨hfree_s c hc, rfl, hk⟩
  · intro t ht htH hloc'
    rw [hal] at ht
    rw [hsp] at hloc'
    unfold Listed
    rw [hsp]
    by_cases hts : t = s
    · subst hts
      split_ifs with hk
      · exact (hsets _ _).2 (Or.inr ⟨rfl, rfl, hk⟩)
      · exact (hlists _ _ _).2 (Or.inr ⟨rfl, rfl, hk, rfl⟩)
    · have hl := hinv.listed t ht (fun h' => htH (Finset.mem_erase.2 ⟨hts, h'⟩)) hloc'
      unfold Listed at hl
      split_ifs at hl ⊢
      · exact (hsets _ _).2 (Or.inl hl)
      · exact (hlists _ _ _).2 (Or.inl hl)
  · intro c i
    rw [prependToFreeList_lists]
    split_ifs
    · rw [listPrepend_apply]
      split_ifs
      · exact List.nodup_cons.2 ⟨hinv.not_mem_lists hs c _, hinv.nodup c _⟩
      · exact hinv.nodup c i
    · exact hinv.nodup c i
  · intro c
    rw [bestFitLess_of_spans hsp, prependToFreeList_sets]
    split_ifs
    · refine pairwise_setInsert (fun y hy => ?_) (hinv.sorted c)
      -- `s` and a span of the set are different spans, so they start apart
      obtain ⟨hf, hy2, -⟩ := hinv.onSet c y hy
      have hys := hinv.not_mem_sets hs c y hy
      have hd := hinv.layout.disjoint y.1 s hf.live hlive hys
      have hb := hinv.layout.bounds y.1 hf.live
      simp only [bestFitLess_iff]
      omega
    · exact hinv.sorted c
  · have hp := hpages true
    have hf := hinv.free
    by_cases hn : (h.spans s).location = .onNormalFreelist
    · simp only [hn, beq_self_eq_true, if_true] at hstats hp
      rw [hp, Nat.add_mul, hstats.1, hf]
    · simp only [hn, if_false, beq_eq_false_iff_ne.2 hn, Bool.true_eq_false, Nat.add_zero]
        at hstats hp
      rw [hp, hstats.1, hf]
  · have hp := hpages false
    have hu := hinv.unmapped
    by_cases hn : (h.spans s).location = .onNormalFreelist
    · simp only [hn, beq_self_eq_true, if_true, Bool.false_eq_true, if_false, Nat.add_zero]
        at hstats hp
      rw [hp, hstats.2, hu]
    · simp only [hn, if_false, beq_eq_false_iff_ne.2 hn, if_true] at hstats hp
      rw [hp, Nat.add_mul, hstats.2, hu]
  · have hheld := hinv.held
    have hsum := Finset.add_sum_erase H (fun t => (h.spans t).length * 2 ^ b.pageShift) hs
    unfold heldBytes at hheld ⊢
    rw [hsp, prependToFreeList_systemTaken]
    split_ifs at hstats <;> omega
  · rw [prependToFreeList_systemTaken]
    exact hinv.taken
  · rw [hal]
    exact hinv.allocator

/-- A change that only touches holes keeps the invariant: the spans that are
    not holes keep their fields and stay spans of the heap, holes that stop
    being holes are deleted, the lists, sets and counters stay, the holes
    left hold the bytes of the old ones, and the bytes taken from the system
    only grow. -/
theorem of_holes (hinv : Inv b h H) {h' : PageHeap} {H' : Finset SpanId}
    (hlayout : Layout b h'.spans h'.spanAllocator.Live h'.pagemap) (hH : H' ⊆ H)
    (hlive : ∀ t, t ∉ H → (h'.spanAllocator.Live t ↔ h.spanAllocator.Live t))
    (hleft : ∀ t ∈ H, t ∉ H' → ¬h'.spanAllocator.Live t)
    (hholes : ∀ t ∈ H', h'.spanAllocator.Live t)
    (hspans : ∀ t, t ∉ H → h'.spans t = h.spans t)
    (hlists : ∀ normal, h'.lists normal = h.lists normal)
    (hsets : ∀ normal, h'.sets normal = h.sets normal)
    (hfree : h'.stats.freeBytes = h.stats.freeBytes)
    (hunmapped : h'.stats.unmappedBytes = h.stats.unmappedBytes)
    (htaken : h.systemTaken ≤ h'.systemTaken) (htaken' : h'.systemTaken < 2 ^ 64)
    (hsum : ∑ t ∈ H', (h'.spans t).length * 2 ^ b.pageShift =
      ∑ t ∈ H, (h.spans t).length * 2 ^ b.pageShift)
    (halloc : h'.spanAllocator.WellFormed) :
    Inv b h' H' := by
  have hfree_t : ∀ c t, FreeOn h H c t → FreeOn h' H' c t := fun c t hf =>
    (hf.of_not_mem fun ht => hf.not_mem (hH ht)).of_spans (hspans t hf.not_mem)
      ((hlive t hf.not_mem).2 hf.live)
  refine ⟨hlayout, hholes, ?_, ?_, ?_, ?_, ?_, ?_, ?_, ?_, ?_, halloc⟩
  · intro c i t ht
    rw [hlists] at ht
    obtain ⟨hf, h1, h2⟩ := hinv.onList c i t ht
    rw [hspans t hf.not_mem]
    exact ⟨hfree_t c t hf, h1, h2⟩
  · intro c x hx
    rw [hsets] at hx
    obtain ⟨hf, h1, h2⟩ := hinv.onSet c x hx
    rw [hspans x.1 hf.not_mem]
    exact ⟨hfree_t c x.1 hf, h1, h2⟩
  · intro t ht htH hloc
    -- a span that was a hole and is not one any more was deleted
    have htH' : t ∉ H := fun htH' => hleft t htH' htH ht
    have hl := hinv.listed t ((hlive t htH').1 ht) htH' (hspans t htH' ▸ hloc)
    unfold Listed at hl ⊢
    rw [hspans t htH', hlists, hsets]
    exact hl
  · intro c i
    rw [hlists]
    exact hinv.nodup c i
  · intro c
    rw [hsets]
    refine (hinv.sorted c).imp_of_mem fun {x y} hx hy hxy => ?_
    rw [bestFitLess_iff, hspans x.1 (hinv.onSet c x hx).1.not_mem,
      hspans y.1 (hinv.onSet c y hy).1.not_mem, ← bestFitLess_iff]
    exact hxy
  · rw [hfree, hlists, hsets]
    exact hinv.free
  · rw [hunmapped, hlists, hsets]
    exact hinv.unmapped
  · have := hinv.held
    unfold heldBytes at this ⊢
    rw [hfree, hunmapped, hsum]
    exact this.trans htaken
  · exact htaken'

/-- A fresh heap has no span, and the invariant holds with no hole. -/
theorem init (n : ℕ) : Inv b (PageHeap.init b n) ∅ where
  layout :=
    { bounds := fun s hs => absurd hs (SpanAllocator.not_live_init s)
      disjoint := fun s _ hs => absurd hs (SpanAllocator.not_live_init s)
      first := fun s hs => absurd hs (SpanAllocator.not_live_init s)
      last := fun s hs => absurd hs (SpanAllocator.not_live_init s)
      covered := fun p t hp => by simp [PageHeap.init] at hp }
  holes_live := fun s hs => absurd hs (Finset.notMem_empty s)
  onList := fun c i s hs => by cases c <;> simp [lists, PageHeap.init] at hs
  onSet := fun c x hx => by cases c <;> simp [sets, PageHeap.init] at hx
  listed := fun s hs => absurd hs (SpanAllocator.not_live_init s)
  nodup := fun c i => by cases c <;> simp [lists, PageHeap.init]
  sorted := fun c => by cases c <;> simp [sets, PageHeap.init]
  free := by simp [listedPages, lists, sets, PageHeap.init]
  unmapped := by simp [listedPages, lists, sets, PageHeap.init]
  held := by simp [heldBytes, PageHeap.init]
  taken := by simp [PageHeap.init]
  allocator := SpanAllocator.wellFormed_init

end Inv

end PageHeap

end Gperftools
