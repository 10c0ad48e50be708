import Mathlib.Data.Fintype.Prod
import Gperftools.Span
import Gperftools.PageHeap.Grow

/-!
# The page heap's span lists

The page heap keeps its free spans of at most `kMaxPages` pages on the rings
of the sentinels `free_[i].normal` and `free_[i].returned`, which live inside
the page heap; its model keeps them as the lists `h.lists normal i`
(`freeNormal`, `freeReturned`). `PrependToFreeList` and
`RemoveFromFreeList` change them by `DLL_Prepend` and `DLL_Remove`, and the
model by `listPrepend` and `listRemove`.

* `Node`: a node of the rings is a span object or a sentinel, so that no
  span is a sentinel;
* `freeLists_prependToFreeList`, `freeLists_removeFromFreeList`: the model's
  calls change its lists as `ListOp.apply` does, on the list of the span's
  length and location;
* `holds_init`: after the constructor's `DLL_Init` of every sentinel, the
  links hold the empty lists of a fresh page heap;
* `prependToFreeList_links`, `removeFromFreeList_links`: from every state of
  the representation invariant whose lists the links hold, the list half of
  both calls follows no null pointer and holds the model's lists after the
  same call;
* `moves_refine`: so over every sequence of such calls that the invariant
  allows, which take spans off their lists and put them back, the pointers
  of the code and the lists of the model stay in step, and the invariant
  holds.
-/

namespace Gperftools

namespace PageHeap

variable (b : Build)

theorem kMaxPages_pos : 0 < b.kMaxPages := by
  rw [Build.kMaxPages, Nat.one_shiftLeft]
  exact Nat.two_pow_pos _

/-- A node of the page heap's span lists: a span object, or the sentinel
    `free_[i].normal` (`(true, i)`) or `free_[i].returned` (`(false, i)`)
    inside the page heap. -/
abbrev Node := SpanId ⊕ (Bool × Fin b.kMaxPages)

/-- The free lists of the model, by sentinel, as lists of nodes. -/
def freeLists (h : PageHeap) (k : Bool × Fin b.kMaxPages) : List (Node b) :=
  (h.lists k.1 k.2).map Sum.inl

/-- The sentinel of the list of a span of at most `kMaxPages` pages:
    `&free_[span->length - 1].normal`, or `.returned`. -/
def listOf (sp : Span) (hsmall : ¬ b.kMaxPages < sp.length) : Bool × Fin b.kMaxPages :=
  (sp.location == .onNormalFreelist, ⟨sp.length - 1, by have := kMaxPages_pos b; omega⟩)

/-- The span-list half of `PrependToFreeList(span)`; a span of more than
    `kMaxPages` pages goes into a set instead. -/
def prependToFreeListLinks (h : PageHeap) (x : Links (Node b)) (s : SpanId) : Option (Links (Node b)) :=
  if hlarge : b.kMaxPages < (h.spans s).length then some x
  else x.dllPrepend (.inr (listOf b (h.spans s) hlarge)) (.inl s)

/-- The span-list half of `RemoveFromFreeList(span)`. -/
def removeFromFreeListLinks (h : PageHeap) (x : Links (Node b)) (s : SpanId) : Option (Links (Node b)) :=
  if b.kMaxPages < (h.spans s).length then some x else x.dllRemove (.inl s)

variable {b} {h : PageHeap} {s : SpanId}

theorem mem_freeLists {k : Bool × Fin b.kMaxPages} :
    Sum.inl s ∈ freeLists b h k ↔ s ∈ h.lists k.1 k.2 := by
  simp [freeLists]

/-- The model's `PrependToFreeList` of a span of at most `kMaxPages` pages
    puts it first on the list of its length and location. -/
theorem freeLists_prependToFreeList (hsmall : ¬ b.kMaxPages < (h.spans s).length) :
    freeLists b (prependToFreeList b h s) =
      ListOp.apply (freeLists b h) (.prepend (listOf b (h.spans s) hsmall) (.inl s)) := by
  funext ⟨c, i⟩
  rw [ListOp.apply, Function.update_apply]
  simp only [freeLists, prependToFreeList_lists, listOf, Prod.mk.injEq, Fin.ext_iff, hsmall,
    not_false_eq_true, and_true]
  by_cases hc : c = ((h.spans s).location == .onNormalFreelist) <;>
    by_cases hi : (i : ℕ) = (h.spans s).length - 1 <;> simp [hc, hi, listPrepend_apply]

/-- The model's `RemoveFromFreeList` of a span of at most `kMaxPages` pages
    takes it off the list of its length and location. -/
theorem freeLists_removeFromFreeList (hsmall : ¬ b.kMaxPages < (h.spans s).length) :
    freeLists b (removeFromFreeList b h s) =
      ListOp.apply (freeLists b h) (.remove (listOf b (h.spans s) hsmall) (.inl s)) := by
  funext ⟨c, i⟩
  rw [ListOp.apply, Function.update_apply]
  simp only [freeLists, removeFromFreeList_lists, listOf, Prod.mk.injEq, Fin.ext_iff, hsmall,
    not_false_eq_true, and_true]
  by_cases hc : c = ((h.spans s).location == .onNormalFreelist) <;>
    by_cases hi : (i : ℕ) = (h.spans s).length - 1 <;>
    simp [hc, hi, listRemove_apply]
  -- `erase` on nodes compares with their `DecidableEq`, not `Sum`'s own `BEq`
  exact @List.map_erase _ _ _ _ instBEqOfDecidableEq _ _ Sum.inl_injective _ _

/-- Spans of more than `kMaxPages` pages are on no list. -/
theorem freeLists_of_large (hlarge : b.kMaxPages < (h.spans s).length) :
    freeLists b (prependToFreeList b h s) = freeLists b h ∧
      freeLists b (removeFromFreeList b h s) = freeLists b h := by
  constructor <;> funext ⟨c, i⟩ <;> simp [freeLists, prependToFreeList_lists, removeFromFreeList_lists, hlarge]

variable {H : Finset SpanId} {x : Links (Node b)}

/-- `PrependToFreeList` of a hole: the list half follows no null pointer and
    holds the model's lists after the call. -/
theorem prependToFreeList_links (hinv : Inv b h H) (hx : x.Holds Sum.inr (freeLists b h)) (hs : s ∈ H) :
    ∃ x', prependToFreeListLinks b h x s = some x' ∧ x'.Holds Sum.inr (freeLists b (prependToFreeList b h s)) := by
  unfold prependToFreeListLinks
  by_cases hlarge : b.kMaxPages < (h.spans s).length
  · rw [dif_pos hlarge, (freeLists_of_large hlarge).1]
    exact ⟨x, rfl, hx⟩
  rw [dif_neg hlarge, freeLists_prependToFreeList hlarge]
  -- a hole is on no list, and no span is a sentinel
  have hoff : ∀ k, (Sum.inl s : Node b) ∉ Sum.inr k :: freeLists b h k := by
    intro k hk
    rcases List.mem_cons.mp hk with hk | hk
    · exact Sum.inl_ne_inr hk
    · exact (hinv.onList k.1 k.2 s (mem_freeLists.mp hk)).1.not_mem hs
  exact hx.prepend hoff _

/-- `RemoveFromFreeList` of a free span that is not a hole: the list half
    follows no null pointer and holds the model's lists after the call. -/
theorem removeFromFreeList_links (hinv : Inv b h H) (hx : x.Holds Sum.inr (freeLists b h))
    (hlive : h.spanAllocator.Live s) (hs : s ∉ H) (hloc : (h.spans s).location ≠ .inUse) :
    ∃ x', removeFromFreeListLinks b h x s = some x' ∧ x'.Holds Sum.inr (freeLists b (removeFromFreeList b h s)) := by
  unfold removeFromFreeListLinks
  by_cases hlarge : b.kMaxPages < (h.spans s).length
  · rw [if_pos hlarge, (freeLists_of_large hlarge).2]
    exact ⟨x, rfl, hx⟩
  rw [if_neg hlarge, freeLists_removeFromFreeList hlarge]
  -- the invariant has the span on the list of its length and location
  have hon : (Sum.inl s : Node b) ∈ freeLists b h (listOf b (h.spans s) hlarge) := by
    have hl := hinv.listed s hlive hs hloc
    unfold Listed at hl
    rw [if_neg hlarge] at hl
    exact mem_freeLists.mpr hl
  obtain ⟨x', hx', hh, -⟩ := hx.remove hon
  exact ⟨x', hx', hh⟩

/-! ## The constructor -/

variable (b)

/-- The sentinels in the order the page heap's constructor initialises
    them: for each length, `free_[i].normal`, then `free_[i].returned`. -/
def sentinels : List (Node b) := (List.finRange b.kMaxPages).flatMap fun i => [.inr (true, i), .inr (false, i)]

/-- The links after the constructor's `DLL_Init` of every sentinel; no span
    is linked yet. -/
def initLinks : Links (Node b) := (sentinels b).foldl Links.dllInit ⟨fun _ => none, fun _ => none⟩

variable {b}

@[simp] theorem freeLists_init (n : ℕ) : freeLists b (PageHeap.init b n) = fun _ => [] := by
  funext ⟨c, i⟩
  cases c <;> rfl

/-- The links of a fresh page heap hold its lists, which are all empty. -/
theorem holds_init (n : ℕ) : (initLinks b).Holds Sum.inr (freeLists b (PageHeap.init b n)) := by
  rw [freeLists_init]
  refine Links.holds_dllInit (fun k => ?_) Sum.inr_injective _
  obtain ⟨c, i⟩ := k
  -- both sentinels of size `i` come from the same step of the loop
  refine List.mem_flatMap.mpr ⟨i, List.mem_finRange i, ?_⟩
  cases c
  · exact List.mem_cons_of_mem _ (List.mem_singleton_self _)
  · exact List.mem_cons_self

/-! ## Runs of list moves -/

/-- A call that moves a span between the free lists and the holes:
    `RemoveFromFreeList(span)` or `PrependToFreeList(span)`. -/
inductive Move
  | remove (s : SpanId)
  | prepend (s : SpanId)

namespace Move

variable (b)

/-- The call on the model. -/
def heap : Move → PageHeap → PageHeap
  | remove s, h => removeFromFreeList b h s
  | prepend s, h => prependToFreeList b h s

/-- The span-list half of the call, on the links. -/
def links : Move → PageHeap → Links (Node b) → Option (Links (Node b))
  | remove s, h, x => removeFromFreeListLinks b h x s
  | prepend s, h, x => prependToFreeListLinks b h x s

/-- The holes after the call. -/
def holes : Move → Finset SpanId → Finset SpanId
  | remove s, H => insert s H
  | prepend s, H => H.erase s

/-- What the invariant asks of the call: a span to take off its list is a
    free one, not a hole; a span to put back is a free hole. -/
def Allowed (h : PageHeap) (H : Finset SpanId) : Move → Prop
  | remove s => h.spanAllocator.Live s ∧ s ∉ H ∧ (h.spans s).location ≠ .inUse
  | prepend s => s ∈ H ∧ (h.spans s).location ≠ .inUse

variable {b}

/-- One allowed move keeps the invariant, and the links in step with the
    model. -/
theorem step {m : Move} (hinv : Inv b h H) (hx : x.Holds Sum.inr (freeLists b h)) (hm : m.Allowed h H) :
    ∃ x', m.links b h x = some x' ∧ Inv b (m.heap b h) (m.holes H) ∧
      x'.Holds Sum.inr (freeLists b (m.heap b h)) := by
  cases m with
  | remove s =>
    obtain ⟨hlive, hs, hloc⟩ := hm
    obtain ⟨x', hx', hh⟩ := removeFromFreeList_links hinv hx hlive hs hloc
    exact ⟨x', hx', hinv.removeFromFreeList hlive hs hloc, hh⟩
  | prepend s =>
    obtain ⟨hs, hloc⟩ := hm
    obtain ⟨x', hx', hh⟩ := prependToFreeList_links hinv hx hs
    exact ⟨x', hx', hinv.prependToFreeList hs hloc, hh⟩

end Move

variable (b)

/-- The moves one after the other: the model, the holes and the links after
    them; `none` where the links follow a null pointer. -/
def runMoves : List Move → PageHeap → Finset SpanId → Links (Node b) →
    Option (PageHeap × Finset SpanId × Links (Node b))
  | [], h, H, x => some (h, H, x)
  | m :: ms, h, H, x => (m.links b h x).bind fun x' => runMoves ms (m.heap b h) (m.holes H) x'

/-- Every move is allowed where it is made. -/
def MovesAllowed : List Move → PageHeap → Finset SpanId → Prop
  | [], _, _ => True
  | m :: ms, h, H => m.Allowed h H ∧ MovesAllowed ms (m.heap b h) (m.holes H)

variable {b}

/-- Over every sequence of `RemoveFromFreeList` and `PrependToFreeList`
    calls that the representation invariant allows, from a state of the
    invariant whose free lists the links hold: `DLL_Remove` and
    `DLL_Prepend` follow no null pointer, the invariant holds after every
    call, and the links hold the free lists of the model. The induction is
    on the moves. -/
theorem moves_refine (ms : List Move) (hinv : Inv b h H) (hx : x.Holds Sum.inr (freeLists b h))
    (hms : MovesAllowed b ms h H) :
    ∃ h' H' x', runMoves b ms h H x = some (h', H', x') ∧ Inv b h' H' ∧ x'.Holds Sum.inr (freeLists b h') := by
  induction ms generalizing h H x with
  | nil => exact ⟨h, H, x, rfl, hinv, hx⟩
  | cons m ms ih =>
    obtain ⟨hm, hrest⟩ := hms
    obtain ⟨x₁, hx₁, hinv₁, hh₁⟩ := Move.step hinv hx hm
    obtain ⟨h', H', x', hrun, hinv', hh'⟩ := ih hinv₁ hh₁ hrest
    exact ⟨h', H', x', by rw [runMoves, hx₁, Option.bind_some, hrun], hinv', hh'⟩

/-- From `grownHeap`, whose span `0` is on `free_[127].normal`, with the
    links of the constructor after `DLL_Prepend` of that span: taking it off
    its list and putting it back. -/
theorem moves_refine_grown :
    ∃ x, x.Holds Sum.inr (freeLists Build.default grownHeap) ∧
      ∃ h' H' x', runMoves Build.default [.remove 0, .prepend 0] grownHeap ∅ x = some (h', H', x') ∧
        Inv Build.default h' H' ∧ x'.Holds Sum.inr (freeLists Build.default h') := by
  have hlists : freeLists Build.default grownHeap =
      ListOp.apply (freeLists Build.default (PageHeap.init Build.default 1))
        (.prepend (true, ⟨127, by decide⟩) (.inl 0)) := by
    funext k
    revert k
    decide +kernel
  obtain ⟨x, -, hx⟩ := (holds_init (b := Build.default) 1).prepend (s := .inl 0)
    (fun j => by simp) (true, ⟨127, by decide⟩)
  rw [← ListOp.apply, ← hlists] at hx
  have hallowed : MovesAllowed Build.default [.remove 0, .prepend 0] grownHeap ∅ := by
    refine ⟨⟨?_, ?_, ?_⟩, ⟨?_, ?_⟩, trivial⟩ <;> decide +kernel
  exact ⟨x, hx, moves_refine _ grownHeap_inv hx hallowed⟩

end PageHeap

end Gperftools
