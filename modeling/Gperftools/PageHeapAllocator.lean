import Mathlib.Data.List.Basic
import Mathlib.Data.List.Nodup
import Mathlib.Data.List.InsertIdx
import Gperftools.PageHeap.Basic
import Gperftools.Lib.Chain
import Gperftools.Lib.Intervals

/-!
# The allocator of metadata objects

`PageHeapAllocator<T>` (page_heap_allocator.h) hands out the objects of
`sizeof(T)` bytes that tcmalloc keeps its own structures in: spans, stack
traces, thread caches. It carves them one after another from chunks of
`kAllocIncrement` bytes that it takes from `MetaDataAlloc`, and it takes the
last object freed first: `Delete` links an object into `free_list_` through
its first word. `MetaDataAlloc` is an oracle here, its `k`-th call returning
`chunk k` (`0` for `nullptr`, on which `New` logs a crash).

The page heap's model takes span objects from `SpanAllocator`, which names an
object by the order in which it was carved and keeps the free list as a list
of names. This module shows that the code refines it. A client that holds
the pointers `New` gave it, deletes only those, and writes only inside
them (`Op`), sees the same objects as the abstract allocator with the same
calls, under the name of each carved object (`Refines`). So the page heap's
model may take `SpanAllocator` for the allocator.

* `Refines.new_of_free`, `Refines.new_of_chunk`, `Refines.new_of_area`: each
  branch of `New` keeps the refinement, the second one when the chunk
  `MetaDataAlloc` returns shares no address with the earlier ones; the two
  that carve an object are one step, `Refines.carve`;
* `Refines.delete`, `Refines.write`: so do `Delete` and a write into an
  object held, which keeps the free list because no free object shares an
  address with it;
* `Refines.apply`, `Refines.run`: so does every call, and every sequence of
  calls, which never crashes;
* `refines_spanAllocator`: from `STLPageHeapAllocator`'s `Init` on, for every sequence
  of calls, when `MetaDataAlloc` returns chunks that share no address, the
  allocator never crashes, the objects are distinct blocks inside the chunks,
  the free list is the abstract one, and `inuse()` counts what the client
  holds.
-/

namespace Gperftools

open Intervals

/-- `PageHeapAllocator<T>::kAllocIncrement`: `128 << 10` bytes. -/
def kAllocIncrement : ℕ := 128 <<< 10

/-- `PageHeapAllocator<T>`, and the words of memory it reads. -/
structure PageHeapAllocator where
  /-- `free_area_`: where the next object is carved; `0` for `nullptr`. -/
  freeArea : ℕ
  /-- `free_avail_`: the bytes of the area left to carve. -/
  freeAvail : ℕ
  /-- `free_list_`: the object freed last; `0` for `nullptr`. -/
  freeList : ℕ
  /-- `inuse_`. -/
  inuse : ℤ
  /-- The word at each address: the first word of a free object is the next
      free object. -/
  mem : ℕ → ℕ
  /-- The calls made to `MetaDataAlloc`. -/
  calls : ℕ

namespace PageHeapAllocator

variable (size : ℕ) (chunk : ℕ → ℕ)

/-- `New()`, for objects of `size` bytes: the object, or `none` where
    `MetaDataAlloc` returned `nullptr` and `Log(kCrash, ...)` ends the
    program. -/
def new (a : PageHeapAllocator) : Option (ℕ × PageHeapAllocator) :=
  -- consult the free list
  if a.freeList ≠ 0 then
    some (a.freeList, { a with freeList := a.mem a.freeList, inuse := a.inuse + 1 })
  else if a.freeAvail < size then
    -- need more room: the rest of the area is dropped
    let area := chunk a.calls
    if area = 0 then none
    else some (area, { a with freeArea := area + size, freeAvail := kAllocIncrement - size,
                              inuse := a.inuse + 1, calls := a.calls + 1 })
  else
    some (a.freeArea, { a with freeArea := a.freeArea + size, freeAvail := a.freeAvail - size,
                               inuse := a.inuse + 1 })

/-- `Delete(p)`: `p` is linked first in the free list through its first
    word. -/
def delete (a : PageHeapAllocator) (p : ℕ) : PageHeapAllocator :=
  { a with mem := Function.update a.mem p a.freeList, freeList := p, inuse := a.inuse - 1 }

/-- `Init()` on an allocator whose memory holds `mem`, as
    `STLPageHeapAllocator::allocate` calls it before the first `New`: the
    fields are cleared, and one object is carved and freed. -/
def init (mem : ℕ → ℕ) : Option PageHeapAllocator :=
  (new size chunk ⟨0, 0, 0, 0, mem, 0⟩).map fun q => delete q.2 q.1

/-! ## A client -/

/-- What a client of the allocator does: `New`, `Delete` of the `i`-th
    pointer it holds, or a write of a word at `off` bytes into it. -/
inductive Op
  | new
  | delete (i : ℕ)
  | write (i off v : ℕ)
  deriving DecidableEq, Repr

/-- A client and the allocator: the pointers it holds, the last one `New`
    returned first. -/
structure Client where
  alloc : PageHeapAllocator
  held : List ℕ

/-- A call of the client. It deletes and writes only the objects it holds,
    and writes a word only where the object has room for it; any other call
    does nothing. -/
def Op.apply (c : Client) : Op → Option Client
  | .new => (PageHeapAllocator.new size chunk c.alloc).map fun q => ⟨q.2, q.1 :: c.held⟩
  | .delete i =>
    if h : i < c.held.length then some ⟨PageHeapAllocator.delete c.alloc c.held[i], c.held.eraseIdx i⟩
    else some c
  | .write i off v =>
    if h : i < c.held.length ∧ off + 8 ≤ size then
      some ⟨{ c.alloc with mem := Function.update c.alloc.mem (c.held[i] + off) v }, c.held⟩
    else some c

/-- A sequence of calls, until `New` crashes. -/
def run : Client → List Op → Option Client
  | c, [] => some c
  | c, op :: ops => (op.apply size chunk c).bind fun c' => run c' ops

/-! ## The abstract allocator -/

/-- The same calls on `SpanAllocator`, with the names of the objects held. -/
def Op.applySpec (c : SpanAllocator × List SpanId) : Op → SpanAllocator × List SpanId
  | .new => (c.1.new.2, c.1.new.1 :: c.2)
  | .delete i => if h : i < c.2.length then (c.1.delete c.2[i], c.2.eraseIdx i) else c
  | .write _ _ _ => c

/-- A sequence of calls on `SpanAllocator`. -/
def runSpec (c : SpanAllocator × List SpanId) (ops : List Op) : SpanAllocator × List SpanId :=
  ops.foldl Op.applySpec c

/-! ## The refinement -/

/-- The pointer `p`, `none` for `nullptr`. -/
def ptr (p : ℕ) : Option ℕ := if p = 0 then none else some p

@[simp] theorem ptr_eq_none_iff {p : ℕ} : ptr p = none ↔ p = 0 := by
  unfold ptr
  split <;> simp_all

theorem ptr_of_pos {p : ℕ} (hp : 0 < p) : ptr p = some p := if_neg hp.ne'

theorem ptr_eq_some_iff {p q : ℕ} : ptr p = some q ↔ p ≠ 0 ∧ p = q := by
  unfold ptr
  split <;> simp_all

/-- The next free object after the object at `o`: its first word. -/
def link (mem : ℕ → ℕ) (o : ℕ) : Option ℕ := ptr (mem o)

/-- The client `c` and its allocator are the abstract allocator `s` and the
    names `ids` it holds, the object named `k` being at `objs[k]`. -/
structure Refines (s : SpanAllocator) (ids : List SpanId) (c : Client) (objs : List ℕ) : Prop where
  /-- An object for each name carved. -/
  carved : objs.length = s.carved
  /-- Every name carved is free or held, once. -/
  names : (s.freeList ++ ids).Perm (List.range s.carved)
  /-- The free list is linked through the free objects, in the abstract order. -/
  chain : Chain (link c.alloc.mem) (ptr c.alloc.freeList) (s.freeList.map (objs.getD · 0))
  /-- The client holds the objects of the names held. -/
  held : c.held = ids.map (objs.getD · 0)
  /-- The objects and the area left to carve share no address. -/
  apart : ((c.alloc.freeArea, c.alloc.freeAvail) :: objs.map (·, size)).Pairwise Apart
  /-- No object is at `nullptr`. -/
  pos : ∀ o ∈ objs, 0 < o
  /-- They lie in the chunks `MetaDataAlloc` returned so far. -/
  within : ∀ b ∈ (c.alloc.freeArea, c.alloc.freeAvail) :: objs.map (·, size), ∀ x, In x b →
    ∃ k < c.alloc.calls, In x (chunk k, kAllocIncrement)
  /-- `inuse_` counts the objects held. -/
  inuse : c.alloc.inuse = ids.length

/-! ## One call at a time -/

section Refines

variable {size chunk} {s : SpanAllocator} {ids : List SpanId} {c : Client} {objs : List ℕ}

/-- Objects of a positive size that share no address are at distinct
    addresses. -/
theorem nodup_of_apart {l : List ℕ} (hsize : 0 < size) (h : (l.map (·, size)).Pairwise Apart) :
    l.Nodup := by
  rw [List.pairwise_map] at h
  have hne : l.Pairwise (· ≠ ·) := h.imp fun {a b} hab heq => by
    subst heq
    exact hab a ⟨le_refl a, Nat.lt_add_of_pos_right hsize⟩ ⟨le_refl a, Nat.lt_add_of_pos_right hsize⟩
  exact hne

/-- A name free or held has been carved. -/
theorem Refines.lt_of_mem (h : Refines size chunk s ids c objs) {k : SpanId}
    (hk : k ∈ s.freeList ++ ids) : k < objs.length := by
  rw [h.carved]
  exact List.mem_range.mp (h.names.mem_iff.mp hk)

/-- The objects of two names share no address. -/
theorem Refines.apart_of_ne (h : Refines size chunk s ids c objs) {j k : ℕ} (hj : j < objs.length)
    (hk : k < objs.length) (hjk : j ≠ k) : Apart (objs[j], size) (objs[k], size) := by
  have hp := List.pairwise_iff_getElem.mp (List.pairwise_cons.mp h.apart).2
  rcases Nat.lt_or_gt_of_ne hjk with hlt | hlt
  · have hjk' := hp j k (by simpa using hj) (by simpa using hk) hlt
    rwa [List.getElem_map, List.getElem_map] at hjk'
  · have hkj := hp k j (by simpa using hk) (by simpa using hj) hlt
    rw [List.getElem_map, List.getElem_map] at hkj
    exact hkj.symm

/-- A free name is not held. -/
theorem Refines.ne_of_mem (h : Refines size chunk s ids c objs) {f k : SpanId}
    (hf : f ∈ s.freeList) (hk : k ∈ ids) : f ≠ k := fun hfk =>
  List.disjoint_of_nodup_append (h.names.nodup_iff.mpr List.nodup_range) hf (hfk ▸ hk)

/-- The client holds no pointer twice. -/
theorem Refines.nodup_held (h : Refines size chunk s ids c objs) (hsize : 0 < size) : c.held.Nodup := by
  have hobjs := nodup_of_apart hsize (List.pairwise_cons.mp h.apart).2
  have hids : ids.Nodup := (h.names.nodup_iff.mpr List.nodup_range).of_append_right
  rw [h.held]
  refine hids.map_on fun j hj k hk hjk => ?_
  rw [List.getD_eq_getElem _ _ (h.lt_of_mem (List.mem_append_right _ hj)),
    List.getD_eq_getElem _ _ (h.lt_of_mem (List.mem_append_right _ hk))] at hjk
  exact hobjs.getElem_inj_iff.mp hjk

/-- No pointer the client holds is `nullptr`. -/
theorem Refines.pos_of_mem_held (h : Refines size chunk s ids c objs) {p : ℕ} (hp : p ∈ c.held) :
    0 < p := by
  rw [h.held] at hp
  obtain ⟨k, hk, rfl⟩ := List.mem_map.mp hp
  rw [List.getD_eq_getElem _ _ (h.lt_of_mem (List.mem_append_right _ hk))]
  exact h.pos _ (List.getElem_mem _)

/-- The names held have as many objects as the client holds pointers. -/
theorem Refines.length_held (h : Refines size chunk s ids c objs) : c.held.length = ids.length := by
  rw [h.held, List.length_map]

/-- The areas of the chunks `MetaDataAlloc` returns share no address. -/
theorem apart_of_chunks {b b' : ℕ × ℕ} {n : ℕ}
    (hsep : ∀ j k, j ≠ k → Apart (chunk j, kAllocIncrement) (chunk k, kAllocIncrement))
    (hb : ∀ x, In x b → In x (chunk n, kAllocIncrement))
    (hb' : ∀ x, In x b' → ∃ k < n, In x (chunk k, kAllocIncrement)) : Apart b b' := by
  intro x hx hx'
  obtain ⟨k, hk, hxk⟩ := hb' x hx'
  exact hsep n k (by omega) x (hb x hx) hxk

/-- `New` from the free list takes its first object. -/
theorem Refines.new_of_free (h : Refines size chunk s ids c objs) (hfl : c.alloc.freeList ≠ 0) :
    ∃ c', Op.apply size chunk c .new = some c' ∧
      Refines size chunk (Op.applySpec (s, ids) .new).1 (Op.applySpec (s, ids) .new).2 c' objs := by
  have hchain := h.chain
  rw [ptr, if_neg hfl] at hchain
  obtain ⟨l', hl', hrest⟩ := Chain.some_iff.mp hchain
  obtain ⟨k, rest, hfree, hk, rfl⟩ := List.map_eq_cons_iff.mp hl'
  have hnew : s.new = (k, ⟨rest, s.carved⟩) := by
    simp [SpanAllocator.new, hfree]
  refine ⟨⟨{ c.alloc with freeList := c.alloc.mem c.alloc.freeList, inuse := c.alloc.inuse + 1 },
    c.alloc.freeList :: c.held⟩, by simp [Op.apply, new, hfl], ?_⟩
  simp only [Op.applySpec, hnew]
  refine ⟨h.carved, ?_, hrest, by rw [List.map_cons, hk, h.held], h.apart, h.pos, h.within, ?_⟩
  · -- the name taken moves from the free names to the held ones
    refine List.perm_middle.trans ?_
    rw [← List.cons_append, ← hfree]
    exact h.names
  · show c.alloc.inuse + 1 = ((k :: ids).length : ℤ)
    rw [h.inuse, List.length_cons]
    push_cast
    rfl

/-- Carving the object `o` with the free list empty gives it the next name.
    Both branches of `New` that carve are this step: the area left starts
    right after `o`, and both lie apart from the other objects and inside the
    chunks. -/
theorem Refines.carve (h : Refines size chunk s ids c objs) (hfree : s.freeList = [])
    {a : PageHeapAllocator} {o : ℕ} (hfl : a.freeList = 0) (hpos : 0 < o)
    (harea : a.freeArea = o + size) (hinuse : a.inuse = c.alloc.inuse + 1)
    (hcalls : c.alloc.calls ≤ a.calls)
    (hobj : ∀ b ∈ objs.map (·, size), Apart (o, size) b)
    (hrest : ∀ b ∈ objs.map (·, size), Apart (a.freeArea, a.freeAvail) b)
    (hin : ∀ b ∈ [(a.freeArea, a.freeAvail), (o, size)], ∀ x, In x b →
      ∃ k < a.calls, In x (chunk k, kAllocIncrement)) :
    Refines size chunk ⟨[], s.carved + 1⟩ (s.carved :: ids) ⟨a, o :: c.held⟩ (objs ++ [o]) := by
  refine ⟨by simp [h.carved], ?_, ?_, ?_, ?_, ?_, ?_, ?_⟩
  · -- the new name is the next one
    have hids : ids.Perm (List.range s.carved) := by simpa [hfree] using h.names
    rw [List.nil_append, List.range_succ]
    exact (List.perm_append_singleton _ _).symm.trans (hids.append_right _)
  · show Chain _ (ptr a.freeList) _
    rw [hfl, ptr, if_pos rfl]
    exact Chain.nil
  · -- the names held before keep their objects
    have hkeep : ids.map ((objs ++ [o]).getD · 0) = ids.map (objs.getD · 0) :=
      List.map_congr_left fun k hk => List.getD_append _ _ _ _ (h.lt_of_mem (List.mem_append_right _ hk))
    rw [List.map_cons, hkeep, ← h.held, ← h.carved, List.getD_append_right _ _ _ _ le_rfl, Nat.sub_self]
    rfl
  · have hperm : ((a.freeArea, a.freeAvail) :: (objs ++ [o]).map (·, size)).Perm
        ((a.freeArea, a.freeAvail) :: (o, size) :: objs.map (·, size)) := by
      rw [List.map_append, List.map_singleton]
      exact (List.perm_append_singleton _ _).cons _
    refine List.Pairwise.perm ?_ hperm.symm fun hab => hab.symm
    refine List.pairwise_cons.mpr ⟨?_, List.pairwise_cons.mpr ⟨hobj, (List.pairwise_cons.mp h.apart).2⟩⟩
    intro b hb
    rcases List.mem_cons.mp hb with rfl | hb
    · rw [harea]
      exact (apart_cut o size _).symm
    · exact hrest b hb
  · intro p hp
    rcases List.mem_append.mp hp with hp | hp
    · exact h.pos p hp
    · rw [List.mem_singleton.mp hp]
      exact hpos
  · intro b hb x hx
    simp only [List.map_append, List.map_singleton, List.mem_cons, List.mem_append,
      List.not_mem_nil, or_false] at hb
    rcases hb with rfl | hb | rfl
    · exact hin _ List.mem_cons_self x hx
    · obtain ⟨k, hk, hxk⟩ := h.within b (List.mem_cons_of_mem _ hb) x hx
      exact ⟨k, lt_of_lt_of_le hk hcalls, hxk⟩
    · exact hin _ (by simp) x hx
  · show a.inuse = ((s.carved :: ids).length : ℤ)
    rw [hinuse, h.inuse, List.length_cons]
    push_cast
    rfl

/-- `New` with an empty free list and no room left carves the first object of
    a new chunk. -/
theorem Refines.new_of_chunk (h : Refines size chunk s ids c objs) (hsize : size ≤ kAllocIncrement)
    (hchunk : ∀ k, 0 < chunk k)
    (hsep : ∀ j k, j ≠ k → Apart (chunk j, kAllocIncrement) (chunk k, kAllocIncrement))
    (hfl : c.alloc.freeList = 0) (havail : c.alloc.freeAvail < size) :
    ∃ c' objs', Op.apply size chunk c .new = some c' ∧
      Refines size chunk (Op.applySpec (s, ids) .new).1 (Op.applySpec (s, ids) .new).2 c' objs' := by
  have hchain := h.chain
  rw [hfl, ptr, if_pos rfl, Chain.none_iff, List.map_eq_nil_iff] at hchain
  have hnew : s.new = (s.carved, ⟨[], s.carved + 1⟩) := by
    simp [SpanAllocator.new, hchain]
  set area := chunk c.alloc.calls with harea
  have hpos : 0 < area := hchunk _
  refine ⟨⟨{ c.alloc with
      freeArea := area + size
      freeAvail := kAllocIncrement - size
      inuse := c.alloc.inuse + 1
      calls := c.alloc.calls + 1 }, area :: c.held⟩, objs ++ [area],
    by simp [Op.apply, new, hfl, havail]; exact ⟨hpos.ne', rfl⟩, ?_⟩
  simp only [Op.applySpec, hnew]
  -- the new object and the area after it lie in the new chunk, apart from
  -- the chunks before it, which hold the other objects
  have hobj : ∀ x, In x (area, size) → In x (chunk c.alloc.calls, kAllocIncrement) := by
    intro x hx
    unfold In at hx ⊢
    omega
  have hrest : ∀ x, In x (area + size, kAllocIncrement - size) →
      In x (chunk c.alloc.calls, kAllocIncrement) := by
    intro x hx
    unfold In at hx ⊢
    dsimp only at hx ⊢
    omega
  have hold : ∀ b ∈ objs.map (·, size), ∀ x, In x b → ∃ k < c.alloc.calls, In x (chunk k, kAllocIncrement) :=
    fun b hb => h.within b (List.mem_cons_of_mem _ hb)
  refine h.carve hchain hfl hpos rfl rfl (Nat.le_succ _) (fun b hb => apart_of_chunks hsep hobj (hold b hb))
    (fun b hb => apart_of_chunks hsep hrest (hold b hb)) ?_
  intro b hb x hx
  simp only [List.mem_cons, List.not_mem_nil, or_false] at hb
  rcases hb with rfl | rfl
  · exact ⟨c.alloc.calls, Nat.lt_succ_self _, hrest x hx⟩
  · exact ⟨c.alloc.calls, Nat.lt_succ_self _, hobj x hx⟩

/-- `New` with an empty free list and room left carves the next object of the
    area. -/
theorem Refines.new_of_area (h : Refines size chunk s ids c objs) (hsize : 0 < size)
    (hchunk : ∀ k, 0 < chunk k) (hfl : c.alloc.freeList = 0) (havail : size ≤ c.alloc.freeAvail) :
    ∃ c' objs', Op.apply size chunk c .new = some c' ∧
      Refines size chunk (Op.applySpec (s, ids) .new).1 (Op.applySpec (s, ids) .new).2 c' objs' := by
  have hchain := h.chain
  rw [hfl, ptr, if_pos rfl, Chain.none_iff, List.map_eq_nil_iff] at hchain
  have hnew : s.new = (s.carved, ⟨[], s.carved + 1⟩) := by
    simp [SpanAllocator.new, hchain]
  set fa := c.alloc.freeArea
  set av := c.alloc.freeAvail
  -- the area lies in a chunk, so not at `nullptr`
  have hpos : 0 < fa := by
    obtain ⟨k, -, hk⟩ := h.within (fa, av) List.mem_cons_self fa ⟨le_refl fa, by dsimp only; omega⟩
    have := hchunk k
    unfold In at hk
    dsimp only at hk
    omega
  refine ⟨⟨{ c.alloc with freeArea := fa + size, freeAvail := av - size, inuse := c.alloc.inuse + 1 },
    fa :: c.held⟩, objs ++ [fa], by simp [Op.apply, new, hfl, not_lt.mpr havail, fa, av], ?_⟩
  simp only [Op.applySpec, hnew]
  -- the new object and the rest of the area are parts of the area
  have hobj : ∀ x, In x (fa, size) → In x (fa, av) := by
    intro x hx
    unfold In at hx ⊢
    dsimp only at hx ⊢
    omega
  have hrest : ∀ x, In x (fa + size, av - size) → In x (fa, av) := by
    intro x hx
    unfold In at hx ⊢
    dsimp only at hx ⊢
    omega
  have harea := (List.pairwise_cons.mp h.apart).1
  refine h.carve hchain hfl hpos rfl rfl le_rfl (fun b hb => (harea b hb).of_within hobj)
    (fun b hb => (harea b hb).of_within hrest) ?_
  intro b hb x hx
  simp only [List.mem_cons, List.not_mem_nil, or_false] at hb
  rcases hb with rfl | rfl
  · exact h.within (fa, av) List.mem_cons_self x (hrest x hx)
  · exact h.within (fa, av) List.mem_cons_self x (hobj x hx)

/-- `Delete` of an object held links it first in the free list. -/
theorem Refines.delete (h : Refines size chunk s ids c objs) (hsize : 0 < size) {i : ℕ}
    (hi : i < c.held.length) :
    ∃ c', Op.apply size chunk c (.delete i) = some c' ∧
      Refines size chunk (Op.applySpec (s, ids) (.delete i)).1 (Op.applySpec (s, ids) (.delete i)).2 c'
        objs := by
  have hi' : i < ids.length := h.length_held ▸ hi
  have hk : ids[i] ∈ ids := List.getElem_mem hi'
  have hklt : ids[i] < objs.length := h.lt_of_mem (List.mem_append_right _ hk)
  have hp : c.held[i] = objs[ids[i]] := by
    rw [List.getElem_of_eq h.held hi, List.getElem_map, List.getD_eq_getElem _ _ hklt]
  have hnodup := nodup_of_apart hsize (List.pairwise_cons.mp h.apart).2
  refine ⟨⟨PageHeapAllocator.delete c.alloc c.held[i], c.held.eraseIdx i⟩, by simp [Op.apply, hi], ?_⟩
  simp only [Op.applySpec, dif_pos hi', SpanAllocator.delete]
  refine ⟨h.carved, ?_, ?_, ?_, h.apart, h.pos, h.within, ?_⟩
  · -- the name moves from the held ones to the front of the free ones
    have hids : ids.Perm (ids[i] :: ids.eraseIdx i) :=
      (List.perm_cons_erase hk).trans ((List.erase_getElem hi').cons _)
    exact (List.perm_middle.symm.trans (hids.symm.append_left _)).trans h.names
  · show Chain (link (Function.update c.alloc.mem c.held[i] c.alloc.freeList)) (ptr c.held[i])
      ((ids[i] :: s.freeList).map (objs.getD · 0))
    rw [hp, List.map_cons, List.getD_eq_getElem _ _ hklt, ptr, if_neg (h.pos _ (List.getElem_mem hklt)).ne']
    refine Chain.cons ?_
    rw [link, Function.update_self]
    -- no free object is the one deleted, so their links stay
    refine h.chain.frame fun a ha => ?_
    obtain ⟨f, hf, rfl⟩ := List.mem_map.mp ha
    have hflt := h.lt_of_mem (List.mem_append_left _ hf)
    rw [link, link, Function.update_of_ne, List.getD_eq_getElem _ _ hflt]
    rw [List.getD_eq_getElem _ _ hflt]
    intro heq
    exact h.ne_of_mem hf hk ((hnodup.getElem_inj_iff).mp heq)
  · show c.held.eraseIdx i = _
    rw [h.held, List.eraseIdx_map]
  · show c.alloc.inuse - 1 = ((ids.eraseIdx i).length : ℤ)
    rw [List.length_eraseIdx_of_lt hi', h.inuse]
    omega

/-- A write into an object held keeps the free list: no free object shares
    an address with it. -/
theorem Refines.write (h : Refines size chunk s ids c objs) (hsize : 0 < size) {i off v : ℕ}
    (hi : i < c.held.length) (hoff : off + 8 ≤ size) :
    ∃ c', Op.apply size chunk c (.write i off v) = some c' ∧
      Refines size chunk (Op.applySpec (s, ids) (.write i off v)).1
        (Op.applySpec (s, ids) (.write i off v)).2 c' objs := by
  have hi' : i < ids.length := h.length_held ▸ hi
  have hk : ids[i] ∈ ids := List.getElem_mem hi'
  have hklt : ids[i] < objs.length := h.lt_of_mem (List.mem_append_right _ hk)
  have hp : c.held[i] = objs[ids[i]] := by
    rw [List.getElem_of_eq h.held hi, List.getElem_map, List.getD_eq_getElem _ _ hklt]
  refine ⟨⟨{ c.alloc with mem := Function.update c.alloc.mem (c.held[i] + off) v }, c.held⟩,
    by simp [Op.apply, hi, hoff], ?_⟩
  refine ⟨h.carved, h.names, ?_, h.held, h.apart, h.pos, h.within, h.inuse⟩
  show Chain (link (Function.update c.alloc.mem (c.held[i] + off) v)) (ptr c.alloc.freeList) _
  refine h.chain.frame fun a ha => ?_
  obtain ⟨f, hf, rfl⟩ := List.mem_map.mp ha
  have hflt := h.lt_of_mem (List.mem_append_left _ hf)
  rw [link, link, Function.update_of_ne, List.getD_eq_getElem _ _ hflt]
  rw [List.getD_eq_getElem _ _ hflt, hp]
  intro heq
  -- the word written is inside the object held, which the free object is apart from
  have hin : In objs[f] (objs[ids[i]], size) := by
    rw [heq]
    unfold In
    dsimp only
    omega
  exact h.apart_of_ne hflt hklt (h.ne_of_mem hf hk) objs[f]
    ⟨le_refl _, Nat.lt_add_of_pos_right hsize⟩ hin

section Oracle

variable (hsize : 0 < size) (hsize' : size ≤ kAllocIncrement) (hchunk : ∀ k, 0 < chunk k)
  (hsep : ∀ j k, j ≠ k → Apart (chunk j, kAllocIncrement) (chunk k, kAllocIncrement))
include hsize hsize' hchunk hsep

/-- Every call keeps the refinement, when `MetaDataAlloc` returns chunks that
    share no address. -/
theorem Refines.apply (h : Refines size chunk s ids c objs) (op : Op) :
    ∃ c' objs', Op.apply size chunk c op = some c' ∧
      Refines size chunk (Op.applySpec (s, ids) op).1 (Op.applySpec (s, ids) op).2 c' objs' := by
  cases op with
  | new =>
    by_cases hfl : c.alloc.freeList = 0
    · rcases Nat.lt_or_ge c.alloc.freeAvail size with havail | havail
      · exact h.new_of_chunk hsize' hchunk hsep hfl havail
      · exact h.new_of_area hsize hchunk hfl havail
    · obtain ⟨c', hc', h'⟩ := h.new_of_free hfl
      exact ⟨c', objs, hc', h'⟩
  | delete i =>
    by_cases hi : i < c.held.length
    · obtain ⟨c', hc', h'⟩ := h.delete hsize hi
      exact ⟨c', objs, hc', h'⟩
    · -- a pointer the client does not hold: nothing happens
      have hi' : ¬ i < ids.length := h.length_held ▸ hi
      refine ⟨c, objs, by simp [Op.apply, hi], ?_⟩
      simpa [Op.applySpec, hi'] using h
  | write i off v =>
    by_cases hw : i < c.held.length ∧ off + 8 ≤ size
    · obtain ⟨c', hc', h'⟩ := h.write hsize hw.1 hw.2
      exact ⟨c', objs, hc', h'⟩
    · exact ⟨c, objs, by simp only [Op.apply, dif_neg hw], h⟩

/-- So does every sequence of calls, which never crashes. -/
theorem Refines.run (ops : List Op) (h : Refines size chunk s ids c objs) :
    ∃ c' objs', run size chunk c ops = some c' ∧
      Refines size chunk (runSpec (s, ids) ops).1 (runSpec (s, ids) ops).2 c' objs' := by
  induction ops generalizing s ids c objs with
  | nil => exact ⟨c, objs, rfl, h⟩
  | cons op ops ih =>
    obtain ⟨c₁, objs₁, h₁, hr₁⟩ := h.apply hsize hsize' hchunk hsep op
    obtain ⟨c', objs', h', hr'⟩ := ih hr₁
    exact ⟨c', objs', by rw [run, h₁, Option.bind_some, h'], hr'⟩

/-- `Init` leaves the allocator refining `SpanAllocator.init`: one object
    carved, and free. -/
theorem init_refines (mem : ℕ → ℕ) :
    ∃ a objs, init size chunk mem = some a ∧ Refines size chunk SpanAllocator.init [] ⟨a, []⟩ objs := by
  -- the cleared allocator refines the allocator that has carved nothing
  have hzero : Refines size chunk ⟨[], 0⟩ [] ⟨⟨0, 0, 0, 0, mem, 0⟩, []⟩ [] := by
    refine ⟨rfl, List.Perm.refl _, by rw [ptr, if_pos rfl]; exact Chain.nil, rfl,
      List.pairwise_singleton _ _, by simp, ?_, rfl⟩
    intro b hb x hx
    rw [List.map_nil, List.mem_singleton] at hb
    subst hb
    unfold In at hx
    dsimp only at hx
    omega
  -- `Init` is a `New` and the `Delete` of the object it returns
  obtain ⟨c', objs, hrun, hr⟩ := hzero.run hsize hsize' hchunk hsep [.new, .delete 0]
  have hinit : run size chunk ⟨⟨0, 0, 0, 0, mem, 0⟩, []⟩ [.new, .delete 0] =
      (init size chunk mem).map fun a => ⟨a, []⟩ := by
    unfold init
    cases hnew : new size chunk ⟨0, 0, 0, 0, mem, 0⟩ with
    | none => simp [run, Op.apply, hnew]
    | some q => simp [run, Op.apply, hnew]
  rw [hinit] at hrun
  obtain ⟨a, ha, rfl⟩ := Option.map_eq_some_iff.mp hrun
  exact ⟨a, objs, ha, hr⟩

/-- `PageHeapAllocator` refines `SpanAllocator`. When `MetaDataAlloc`
    returns chunks that share no address, for objects of `0 < size ≤
    kAllocIncrement` bytes and every sequence of calls of a client that
    deletes and writes only the objects it holds: after `Init`, no `New`
    crashes, and there are objects, one for each name `SpanAllocator`
    carves on the same calls, such that the client holds the objects of the
    names it holds there, the free list is linked through the free objects
    in the order of `SpanAllocator`'s free list, the objects and the area left
    share no address and lie in the chunks, and `inuse()` is the number of
    objects held. -/
theorem refines_spanAllocator (mem : ℕ → ℕ) (ops : List Op) :
    ∃ a c objs, init size chunk mem = some a ∧ run size chunk ⟨a, []⟩ ops = some c ∧
      Refines size chunk (runSpec (SpanAllocator.init, []) ops).1 (runSpec (SpanAllocator.init, []) ops).2
        c objs := by
  obtain ⟨a, objs, ha, h⟩ := init_refines hsize hsize' hchunk hsep mem
  obtain ⟨c, objs', hrun, h'⟩ := h.run hsize hsize' hchunk hsep ops
  exact ⟨a, c, objs', ha, hrun, h'⟩

end Oracle

end Refines

/-- `MetaDataAlloc` handing out chunks a megabyte apart. -/
def spacedChunk (k : ℕ) : ℕ := (k + 1) * 2 ^ 20

theorem spacedChunk_pos (k : ℕ) : 0 < spacedChunk k := by
  unfold spacedChunk
  positivity

theorem spacedChunk_apart (j k : ℕ) (hjk : j ≠ k) :
    Apart (spacedChunk j, kAllocIncrement) (spacedChunk k, kAllocIncrement) := by
  intro x hx hy
  have hinc : kAllocIncrement = 131072 := rfl
  unfold In spacedChunk at hx hy
  dsimp only at hx hy
  rw [hinc] at hx hy
  simp only [Nat.reducePow] at hx hy
  omega

theorem refines_spanAllocator_spaced :
    0 < 64 ∧ 64 ≤ kAllocIncrement ∧ (∀ k, 0 < spacedChunk k) ∧
      (∀ j k, j ≠ k → Apart (spacedChunk j, kAllocIncrement) (spacedChunk k, kAllocIncrement)) ∧
      ∃ a c objs, init 64 spacedChunk (fun _ => 0) = some a ∧
        run 64 spacedChunk ⟨a, []⟩ [.new, .write 0 8 7, .new, .delete 1, .new] = some c ∧
        Refines 64 spacedChunk (runSpec (SpanAllocator.init, []) [.new, .write 0 8 7, .new, .delete 1, .new]).1
          (runSpec (SpanAllocator.init, []) [.new, .write 0 8 7, .new, .delete 1, .new]).2 c objs := by
  have hinc : kAllocIncrement = 131072 := rfl
  exact ⟨by decide, by rw [hinc]; decide, spacedChunk_pos, spacedChunk_apart,
    refines_spanAllocator (by decide) (by rw [hinc]; decide) spacedChunk_pos spacedChunk_apart _ _⟩

end PageHeapAllocator

end Gperftools
