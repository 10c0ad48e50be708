import Mathlib.Data.Fintype.Defs
import Gperftools.Lib.Ring

/-!
# The span lists

A span list (span.h, span.cc) is a doubly linked ring of `Span` objects
through their `next` and `prev` fields, closed by a sentinel `Span` that
holds no pages. The page heap keeps two for each length up to `kMaxPages`,
the sentinels `free_[i].normal` and `free_[i].returned` inside the page
heap. `DLL_Prepend` links a span in after the sentinel, `DLL_Remove` links
its neighbours to each other, and `DLL_IsEmpty` and `DLL_Length` read the
ring from the sentinel. The model of the page heap keeps each list as the
`List SpanId` of its spans, first to last, changed by `listPrepend` and
`listRemove` (`PageHeap.Basic`).

That abstraction is sound: the pointers the code keeps implement it.

* `Holds`: the links hold the lists: the list `i` is the ring of the
  sentinel `heads i`, and no node is on two rings;
* `Holds.prepend`, `Holds.remove`: `DLL_Prepend` of a span on no list and
  `DLL_Remove` of a span on the list `i` follow no null pointer, and hold
  the lists with the span put first or taken out;
* `Holds.dllIsEmpty_eq`, `Holds.dllLength_eq`: what the page heap reads
  from a sentinel is what its list says;
* `holds_dllInit`: `DLL_Init` of every sentinel holds empty lists;
* `dll_refines_lists`: over every sequence of prepends and removes that the lists
  allow, the code follows no null pointer and its links hold the lists that
  `cons` and `erase` compute; each `DLL_Remove` leaves the node's pointers
  null, and what the page heap reads from the sentinels afterwards is what
  the lists say.

`PageHeap.SpanLists` takes this to the page heap's own sentinels.
-/

namespace Gperftools

/-- The `next` and `prev` fields of the span objects, `none` for
    `nullptr`. -/
structure Links (α : Type*) where
  next : α → Option α
  prev : α → Option α

namespace Links

variable {α : Type*} [DecidableEq α]

/-- `DLL_Init(list)`. -/
def dllInit (x : Links α) (list : α) : Links α :=
  ⟨Function.update x.next list (some list), Function.update x.prev list (some list)⟩

/-- `DLL_Remove(span)`; `none` where it would follow a null pointer. -/
def dllRemove (x : Links α) (span : α) : Option (Links α) := do
  -- span->prev->next = span->next
  let p ← x.prev span
  let next := Function.update x.next p (x.next span)
  -- span->next->prev = span->prev
  let n ← next span
  let prev := Function.update x.prev n (x.prev span)
  -- span->prev = nullptr; span->next = nullptr
  pure ⟨Function.update next span none, Function.update prev span none⟩

/-- `DLL_Prepend(list, span)`; `none` where it would follow a null
    pointer. -/
def dllPrepend (x : Links α) (list span : α) : Option (Links α) := do
  -- span->next = list->next; span->prev = list
  let next := Function.update x.next span (x.next list)
  let prev := Function.update x.prev span (some list)
  -- list->next->prev = span
  let n ← next list
  let prev := Function.update prev n (some span)
  -- list->next = span
  pure ⟨Function.update next list (some span), prev⟩

/-- `DLL_IsEmpty(list)`. -/
def dllIsEmpty (x : Links α) (list : α) : Bool := x.next list == some list

/-- `DLL_Length(list)`, for at most `fuel` turns of its loop: the spans the
    loop counts. -/
def dllLength (x : Links α) (list : α) (fuel : ℕ) : ℕ := (LinkedRing.walk x.next list fuel (x.next list)).length

variable {x : Links α} {h s : α} {l l₁ l₂ : List α}

/-- `DLL_Prepend` on a ring, of a node off it. -/
theorem dllPrepend_eq (hr : LinkedRing x.next x.prev h l) (hsh : s ≠ h) :
    x.dllPrepend h s = some ⟨Function.update (Function.update x.next s (some (l.headD h))) h (some s),
      Function.update (Function.update x.prev s (some h)) (l.headD h) (some s)⟩ := by
  have hnext := hr.next_sentinel
  simp only [dllPrepend, Function.update_of_ne hsh.symm, hnext]
  rfl

/-- `DLL_Remove` of a node of a ring. -/
theorem dllRemove_eq (hr : LinkedRing x.next x.prev h (l₁ ++ s :: l₂)) :
    x.dllRemove s = some ⟨Function.update (Function.update x.next (l₁.getLastD h) (some (l₂.headD h))) s none,
      Function.update (Function.update x.prev (l₂.headD h) (some (l₁.getLastD h))) s none⟩ := by
  obtain ⟨hps, hns⟩ := hr.neighbours
  have hsl₁ : s ∉ h :: l₁ := fun hm =>
    (List.nodup_append.mp (show (h :: l₁ ++ s :: l₂).Nodup from hr.nodup)).2.2 s hm s List.mem_cons_self rfl
  have hp : s ≠ l₁.getLastD h := fun e => hsl₁ (e ▸ LinkedRing.getLastD_mem l₁ h)
  simp only [dllRemove, hps, Option.bind_eq_bind, Option.bind_some, Function.update_of_ne hp, hns]
  rfl

/-! ## Families of rings -/

variable {ι : Type*} {heads : ι → α} {lists : ι → List α} {i : ι}

/-- The links hold the lists `lists`: the list `i` is the ring of the
    sentinel `heads i`, and no node is on two rings. -/
structure Holds (x : Links α) (heads : ι → α) (lists : ι → List α) : Prop where
  ring : ∀ i, LinkedRing x.next x.prev (heads i) (lists i)
  apart : ∀ i j, i ≠ j → ∀ a ∈ heads i :: lists i, a ∉ heads j :: lists j

/-- `DLL_IsEmpty` of a sentinel says whether its list is empty. -/
theorem Holds.dllIsEmpty_eq (hx : Holds x heads lists) (i : ι) :
    x.dllIsEmpty (heads i) = (lists i).isEmpty := by
  rw [dllIsEmpty, Bool.eq_iff_iff, beq_iff_eq, (hx.ring i).next_sentinel_eq_iff, List.isEmpty_iff]

/-- `DLL_Length` of a sentinel, given more turns than the list has spans, is
    the length of its list. -/
theorem Holds.dllLength_eq (hx : Holds x heads lists) (i : ι) {fuel : ℕ} (hfuel : (lists i).length < fuel) :
    x.dllLength (heads i) fuel = (lists i).length := by
  rw [dllLength, (hx.ring i).walk_eq hfuel]

/-- `DLL_Init` of the nodes `hs`, one after the other, points each of them
    to itself. The induction is on the nodes. -/
theorem foldl_dllInit (hs : List α) (x : Links α) (a : α) :
    (hs.foldl dllInit x).next a = (if a ∈ hs then some a else x.next a) ∧
      (hs.foldl dllInit x).prev a = (if a ∈ hs then some a else x.prev a) := by
  induction hs generalizing x with
  | nil => simp
  | cons c hs ih =>
    rw [List.foldl_cons, (ih _).1, (ih _).2]
    by_cases ha : a ∈ hs
    · simp [ha]
    · by_cases hc : a = c
      · subst hc
        simp [dllInit]
      · simp [dllInit, ha, hc]

/-- `DLL_Init` of every sentinel, as the page heap's constructor does it,
    holds empty lists. -/
theorem holds_dllInit {hs : List α} (hheads : ∀ i, heads i ∈ hs) (hinj : Function.Injective heads)
    (x : Links α) : Holds (hs.foldl dllInit x) heads (fun _ => []) := by
  refine ⟨fun i => ⟨List.nodup_cons.mpr ⟨List.not_mem_nil, List.nodup_nil⟩, List.isChain_pair.mpr ⟨?_, ?_⟩⟩, fun i j hij a ha hb => ?_⟩
  · rw [(foldl_dllInit hs x _).1, if_pos (hheads i)]
  · rw [(foldl_dllInit hs x _).2, if_pos (hheads i)]
  · rw [List.mem_singleton] at ha hb
    exact hij (hinj (ha.symm.trans hb))

variable [DecidableEq ι]

omit [DecidableEq α] in
/-- A new list `i` of nodes of the old one and nodes on no ring keeps the
    rings apart. -/
theorem Holds.apart_update (hx : Holds x heads lists) {l : List α}
    (hl : ∀ a ∈ l, a ∈ lists i ∨ ∀ j, a ∉ heads j :: lists j) :
    ∀ j k, j ≠ k → ∀ a ∈ heads j :: Function.update lists i l j, a ∉ heads k :: Function.update lists i l k := by
  have key : ∀ m a, a ∈ heads m :: Function.update lists i l m →
      a ∈ heads m :: lists m ∨ m = i ∧ ∀ j, a ∉ heads j :: lists j := by
    intro m a hm
    by_cases hmi : m = i
    · subst hmi
      rw [Function.update_self] at hm
      rcases List.mem_cons.mp hm with rfl | hm
      · exact .inl List.mem_cons_self
      rcases hl a hm with ha | ha
      · exact .inl (List.mem_cons_of_mem _ ha)
      · exact .inr ⟨rfl, ha⟩
    · rw [Function.update_of_ne hmi] at hm
      exact .inl hm
  intro j k hjk a ha hb
  rcases key j a ha with hj | ⟨rfl, hfresh⟩ <;> rcases key k a hb with hk | ⟨rfl, hfresh'⟩
  · exact hx.apart j k hjk a hj hk
  · exact hfresh' j hj
  · exact hfresh k hk
  · exact hjk rfl

/-- `DLL_Prepend(heads i, s)` of a node on no ring puts it first on the list
    `i`. -/
theorem Holds.prepend (hx : Holds x heads lists) (hs : ∀ j, s ∉ heads j :: lists j) (i : ι) :
    ∃ x', x.dllPrepend (heads i) s = some x' ∧ Holds x' heads (Function.update lists i (s :: lists i)) := by
  have hr := hx.ring i
  have hsh : s ≠ heads i := fun e => hs i (e ▸ List.mem_cons_self)
  refine ⟨_, dllPrepend_eq hr hsh, fun j => ?_, hx.apart_update fun a ha => ?_⟩
  · by_cases hji : j = i
    · subst hji
      rw [Function.update_self]
      exact hr.insert (hs j)
    -- the nodes that change are `s`, the sentinel and the old first node,
    -- none of them on another ring
    rw [Function.update_of_ne hji]
    refine (hx.ring j).frame (fun a ha => ?_) (fun a ha => ?_)
    · have hai := hx.apart j i hji a ha
      have has : a ≠ s := fun e : a = s => hs j (e ▸ ha)
      dsimp only
      rw [Function.update_of_ne (fun e : a = heads i => hai (List.mem_cons.mpr (.inl e))),
        Function.update_of_ne has]
    · have hai := hx.apart j i hji a ha
      have has : a ≠ s := fun e : a = s => hs j (e ▸ ha)
      dsimp only
      rw [Function.update_of_ne (fun e : a = (lists i).headD (heads i) => hai (e ▸ LinkedRing.headD_mem _ _)),
        Function.update_of_ne has]
  · rcases List.mem_cons.mp ha with rfl | ha
    · exact .inr hs
    · exact .inl ha

/-- `DLL_Remove(s)` of a node on the list `i` takes it out, and leaves the
    node's own pointers null. -/
theorem Holds.remove (hx : Holds x heads lists) (hs : s ∈ lists i) :
    ∃ x', x.dllRemove s = some x' ∧ Holds x' heads (Function.update lists i ((lists i).erase s)) ∧
      x'.next s = none ∧ x'.prev s = none := by
  obtain ⟨l₁, l₂, hl⟩ := List.append_of_mem hs
  have hr : LinkedRing x.next x.prev (heads i) (l₁ ++ s :: l₂) := hl ▸ hx.ring i
  have hsl₁ : s ∉ l₁ := fun hm =>
    (List.nodup_append.mp (List.nodup_cons.mp hr.nodup).2).2.2 s hm s List.mem_cons_self rfl
  have herase : (lists i).erase s = l₁ ++ l₂ := by
    rw [hl, List.erase_append_right _ hsl₁, List.erase_cons_head]
  -- the nodes that change, `s` and its neighbours, are on the ring `i`
  have hon : ∀ a, a ∈ heads i :: l₁ ∨ a ∈ heads i :: l₂ ∨ a = s → a ∈ heads i :: lists i := by
    intro a ha
    rw [hl]
    simp only [List.mem_cons, List.mem_append] at ha ⊢
    tauto
  refine ⟨_, dllRemove_eq hr, ⟨fun j => ?_, hx.apart_update fun a ha => .inl (List.mem_of_mem_erase ha)⟩,
    Function.update_self .., Function.update_self ..⟩
  by_cases hji : j = i
  · subst hji
    rw [Function.update_self, herase]
    exact hr.unlink
  rw [Function.update_of_ne hji]
  refine (hx.ring j).frame (fun a ha => ?_) (fun a ha => ?_) <;>
    have hai := hx.apart j i hji a ha <;> dsimp only
  · rw [Function.update_of_ne (fun e : a = s => hai (hon a (.inr (.inr e)))),
      Function.update_of_ne (fun e : a = l₁.getLastD (heads i) =>
        hai (hon a (.inl (e ▸ LinkedRing.getLastD_mem _ _))))]
  · rw [Function.update_of_ne (fun e : a = s => hai (hon a (.inr (.inr e)))),
      Function.update_of_ne (fun e : a = l₂.headD (heads i) =>
        hai (hon a (.inr (.inl (e ▸ LinkedRing.headD_mem _ _)))))]

end Links

/-! ## Runs -/

/-- A call on the span lists: `DLL_Prepend` on the sentinel of the list
    `i`, or `DLL_Remove` of a span of the list `i`. -/
inductive ListOp (ι α : Type*)
  | prepend (i : ι) (s : α)
  | remove (i : ι) (s : α)

namespace ListOp

variable {α ι : Type*} [DecidableEq α] [DecidableEq ι]

/-- The call on the links. -/
def exec (heads : ι → α) (x : Links α) : ListOp ι α → Option (Links α)
  | prepend i s => x.dllPrepend (heads i) s
  | remove _ s => x.dllRemove s

/-- The call on the lists: `listPrepend` and `listRemove`. -/
def apply (lists : ι → List α) : ListOp ι α → ι → List α
  | prepend i s => Function.update lists i (s :: lists i)
  | remove i s => Function.update lists i ((lists i).erase s)

/-- What the code asks of a call: a span to prepend is on no list, and a
    span to remove is on its list. -/
def Allowed (heads : ι → α) (lists : ι → List α) : ListOp ι α → Prop
  | prepend _ s => ∀ j, s ∉ heads j :: lists j
  | remove i s => s ∈ lists i

/-- The calls one after the other on the links; `none` where one follows a
    null pointer. -/
def execAll (heads : ι → α) : Links α → List (ListOp ι α) → Option (Links α)
  | x, [] => some x
  | x, op :: ops => (op.exec heads x).bind fun x' => execAll heads x' ops

/-- Every call is allowed on the lists the calls before it leave. -/
def AllowedAll (heads : ι → α) : (ι → List α) → List (ListOp ι α) → Prop
  | _, [] => True
  | lists, op :: ops => op.Allowed heads lists ∧ AllowedAll heads (op.apply lists) ops

instance instDecidableAllowed [Fintype ι] (heads : ι → α) (lists : ι → List α) :
    ∀ op : ListOp ι α, Decidable (op.Allowed heads lists)
  | prepend _ s => inferInstanceAs (Decidable (∀ j, s ∉ heads j :: lists j))
  | remove i s => inferInstanceAs (Decidable (s ∈ lists i))

instance instDecidableAllowedAll [Fintype ι] (heads : ι → α) :
    ∀ lists ops, Decidable (AllowedAll heads lists ops)
  | _, [] => isTrue trivial
  | lists, op :: ops =>
    haveI := instDecidableAllowedAll heads (op.apply lists) ops
    inferInstanceAs (Decidable (_ ∧ _))

variable {heads : ι → α} {lists : ι → List α} {x : Links α}

/-- One allowed call keeps the links holding the lists, and a
    `DLL_Remove` leaves the node's pointers null. -/
theorem Links.Holds.exec (hx : x.Holds heads lists) {op : ListOp ι α} (hop : op.Allowed heads lists) :
    ∃ x', op.exec heads x = some x' ∧ x'.Holds heads (op.apply lists) ∧
      ∀ i s, op = remove i s → x'.next s = none ∧ x'.prev s = none := by
  cases op with
  | prepend i s =>
    obtain ⟨x', hx', hh⟩ := hx.prepend hop i
    exact ⟨x', hx', hh, fun _ _ hop => by cases hop⟩
  | remove i s =>
    obtain ⟨x', hx', hh, hnext, hprev⟩ := hx.remove hop
    refine ⟨x', hx', hh, fun _ _ hop => ?_⟩
    cases hop
    exact ⟨hnext, hprev⟩

end ListOp

namespace Links

variable {α ι : Type*} [DecidableEq α] [DecidableEq ι] {heads : ι → α}

/-- The calls one after the other keep the links holding the lists, and
    the last call, if it is a `DLL_Remove`, leaves the node's pointers null.
    The induction is on the calls. -/
theorem Holds.execAll {x : Links α} {lists : ι → List α} (hx : x.Holds heads lists) (ops : List (ListOp ι α))
    (hops : ListOp.AllowedAll heads lists ops) :
    ∃ x', ListOp.execAll heads x ops = some x' ∧ x'.Holds heads (ops.foldl ListOp.apply lists) ∧
      ∀ i s, ops.getLast? = some (.remove i s) → x'.next s = none ∧ x'.prev s = none := by
  induction ops generalizing x lists with
  | nil => exact ⟨x, rfl, hx, fun _ _ hl => by cases hl⟩
  | cons op ops ih =>
    obtain ⟨hop, hrest⟩ := hops
    obtain ⟨x₁, hx₁, hh₁, hnull₁⟩ := ListOp.Links.Holds.exec hx hop
    obtain ⟨x', hx', hh', hnull'⟩ := ih hh₁ hrest
    refine ⟨x', by rw [ListOp.execAll, hx₁, Option.bind_some, hx'], hh', fun i s hl => ?_⟩
    -- the last call is `op` itself, or the last of the calls after it
    cases ops with
    | nil =>
      cases hx'
      exact hnull₁ i s (Option.some.inj hl)
    | cons op' ops' =>
      rw [List.getLast?_cons_cons] at hl
      exact hnull' i s hl

/-- Over every sequence of calls that the lists allow, `DLL_Prepend` and
    `DLL_Remove` follow no null pointer, and the links hold the lists the
    same calls make with `cons` and `erase`; the last call, if it is a
    `DLL_Remove(s)`, leaves `s->next` and `s->prev` null. After the calls,
    `DLL_IsEmpty`, `DLL_Length`, `list->next` and `list->prev` of every
    sentinel read its list's emptiness, length, first and last node (the
    sentinel itself where the list is empty). -/
theorem dll_refines_lists {x : Links α} {lists : ι → List α} (hx : x.Holds heads lists) (ops : List (ListOp ι α))
    (hops : ListOp.AllowedAll heads lists ops) :
    ∃ x', ListOp.execAll heads x ops = some x' ∧ x'.Holds heads (ops.foldl ListOp.apply lists) ∧
      (∀ i s, ops.getLast? = some (.remove i s) → x'.next s = none ∧ x'.prev s = none) ∧
      ∀ i, x'.dllIsEmpty (heads i) = (ops.foldl ListOp.apply lists i).isEmpty ∧
        (∀ fuel, (ops.foldl ListOp.apply lists i).length < fuel →
          x'.dllLength (heads i) fuel = (ops.foldl ListOp.apply lists i).length) ∧
        x'.next (heads i) = some ((ops.foldl ListOp.apply lists i).headD (heads i)) ∧
        x'.prev (heads i) = some ((ops.foldl ListOp.apply lists i).getLastD (heads i)) := by
  obtain ⟨x', hx', hh, hnull⟩ := hx.execAll ops hops
  exact ⟨x', hx', hh, hnull, fun i =>
    ⟨hh.dllIsEmpty_eq i, fun _ hf => hh.dllLength_eq i hf, (hh.ring i).next_sentinel, (hh.ring i).prev_sentinel⟩⟩

/-- Two sentinels `100` and `101`: three prepends and the removal of the
    first node put on the list of `100`. -/
theorem dll_refines_lists_two :
    let heads := fun c : Bool => if c then 100 else 101
    let ops : List (ListOp Bool ℕ) := [.prepend true 1, .prepend true 2, .prepend false 3, .remove true 1]
    let lists := ops.foldl ListOp.apply fun _ => []
    ∃ x', ListOp.execAll heads (([100, 101] : List ℕ).foldl dllInit ⟨fun _ => none, fun _ => none⟩) ops =
        some x' ∧ x'.Holds heads lists ∧
      (∀ i s, ops.getLast? = some (.remove i s) → x'.next s = none ∧ x'.prev s = none) ∧
      ∀ i, x'.dllIsEmpty (heads i) = (lists i).isEmpty ∧
        (∀ fuel, (lists i).length < fuel → x'.dllLength (heads i) fuel = (lists i).length) ∧
        x'.next (heads i) = some ((lists i).headD (heads i)) ∧
        x'.prev (heads i) = some ((lists i).getLastD (heads i)) :=
  dll_refines_lists (holds_dllInit (fun c => by cases c <;> decide)
    (fun c d hcd => by cases c <;> cases d <;> simp_all) _) _ (by decide)

end Links

end Gperftools
