import Mathlib.Data.List.Chain
import Mathlib.Logic.Function.Basic

/-!
# Doubly linked rings

A heap of nodes of type `α` gives each node two pointers, `next a` and
`prev a : Option α` (`none` is the null pointer), and so holds doubly linked
lists closed into a ring by a sentinel node: from the sentinel `h`,
following `next` visits the distinct nodes `l` and comes back to `h`, and
`prev` goes the same way backwards (`LinkedRing next prev h l`).

* `LinkedRing.next_sentinel`, `LinkedRing.prev_sentinel`: the sentinel points to the
  first and the last node, or to itself when the ring is empty
  (`LinkedRing.next_sentinel_eq_iff`);
* `LinkedRing.neighbours`: a node points to the nodes before and after it;
* `LinkedRing.frame`: changing pointers off the ring keeps it;
* `LinkedRing.insert`: linking a node in after the sentinel puts it first, and
  `LinkedRing.unlink`: linking the neighbours of a node to each other takes it
  out;
* `LinkedRing.walk_eq`: the loop `for (x = h->next; x != h; x = x->next)` visits
  the nodes in order.
-/

variable {α : Type*}

/-- `b` follows `a`: `a->next == b` and `b->prev == a`. -/
def Linked (next prev : α → Option α) (a b : α) : Prop := next a = some b ∧ prev b = some a

/-- Following `next` from the sentinel `h` visits the distinct nodes `l`
    and comes back to `h`; `prev` goes the other way. -/
structure LinkedRing (next prev : α → Option α) (h : α) (l : List α) : Prop where
  nodup : (h :: l).Nodup
  chain : (h :: (l ++ [h])).IsChain (Linked next prev)

namespace LinkedRing

/-- The loop `for (x = p; x != h; x = x->next)`, for at most `n` steps: the
    nodes it visits. -/
def walk [DecidableEq α] (next : α → Option α) (h : α) : ℕ → Option α → List α
  | 0, _ => []
  | _ + 1, none => []
  | n + 1, some a => if a = h then [] else a :: walk next h n (next a)

variable {next prev next' prev' : α → Option α} {h s a : α} {l l₁ l₂ m : List α}

/-- A chain into the sentinel starts with a link to the first node after
    `a`, or to the sentinel. -/
theorem linked_headD (hc : (a :: (m ++ [h])).IsChain (Linked next prev)) :
    Linked next prev a (m.headD h) ∧ (m ++ [h]).IsChain (Linked next prev) := by
  cases m with
  | nil => exact ⟨List.isChain_pair.mp hc, List.isChain_singleton h⟩
  | cons b t => exact List.isChain_cons_cons.mp hc

theorem headD_mem (l : List α) (h : α) : l.headD h ∈ h :: l := by
  cases l <;> simp

theorem getLastD_mem (l : List α) (h : α) : l.getLastD h ∈ h :: l := by
  rw [← List.getLast_eq_getLastD (List.cons_ne_nil h l)]
  exact List.getLast_mem _

/-- In a list without repetitions, no later node is the first. -/
theorem ne_headD_of_mem_tail {L : List α} {b d : α} (hL : L.Nodup) (hb : b ∈ L.tail) : b ≠ L.headD d := by
  cases L with
  | nil => exact absurd hb List.not_mem_nil
  | cons x t =>
    rintro rfl
    exact (List.nodup_cons.mp hL).1 hb

theorem headD_append_singleton (l : List α) (h d : α) : (l ++ [h]).headD d = l.headD h := by
  cases l <;> rfl

theorem nodup_append_singleton (hnd : (h :: l).Nodup) : (l ++ [h]).Nodup :=
  (List.perm_append_singleton h l).nodup_iff.mpr hnd

theorem next_sentinel (hr : LinkedRing next prev h l) : next h = some (l.headD h) :=
  (linked_headD hr.chain).1.1

theorem prev_sentinel (hr : LinkedRing next prev h l) : prev h = some (l.getLastD h) := by
  have hc : ((h :: l) ++ [h]).IsChain (Linked next prev) := hr.chain
  rw [← List.getLast_eq_getLastD (List.cons_ne_nil h l)]
  exact (hc.rel_getLast_head_of_append (List.cons_ne_nil h l) (List.cons_ne_nil h [])).2

/-- `DLL_IsEmpty`: the sentinel points to itself exactly when the ring is
    empty. -/
theorem next_sentinel_eq_iff (hr : LinkedRing next prev h l) : next h = some h ↔ l = [] := by
  rw [hr.next_sentinel, Option.some.injEq]
  cases l with
  | nil => exact ⟨fun _ => rfl, fun _ => rfl⟩
  | cons b t =>
    refine ⟨fun hb => ?_, fun h' => absurd h' (List.cons_ne_nil b t)⟩
    have hb' : b = h := hb
    exact ((List.nodup_cons.mp hr.nodup).1 (List.mem_cons.mpr (.inl hb'.symm))).elim

/-- A node of the ring points back to the node before it and on to the node
    after it. -/
theorem neighbours (hr : LinkedRing next prev h (l₁ ++ s :: l₂)) :
    prev s = some (l₁.getLastD h) ∧ next s = some (l₂.headD h) := by
  have hc : ((h :: l₁) ++ s :: (l₂ ++ [h])).IsChain (Linked next prev) := by
    simpa using hr.chain
  rw [List.isChain_split] at hc
  refine ⟨?_, (linked_headD hc.2).1.1⟩
  rw [← List.getLast_eq_getLastD (List.cons_ne_nil h l₁)]
  exact (hc.1.rel_getLast_head_of_append (List.cons_ne_nil h l₁) (List.cons_ne_nil s [])).2

/-- Pointers changed only off the ring keep it. -/
theorem frame (hr : LinkedRing next prev h l) (hn : ∀ a ∈ h :: l, next' a = next a)
    (hp : ∀ a ∈ h :: l, prev' a = prev a) : LinkedRing next' prev' h l := by
  have hmem : ∀ x ∈ h :: (l ++ [h]), x ∈ h :: l := by
    intro x hx
    simp only [List.mem_cons, List.mem_append, List.not_mem_nil, or_false] at hx ⊢
    tauto
  exact ⟨hr.nodup, hr.chain.imp_of_mem_imp fun a b ha hb hab =>
    ⟨(hn a (hmem a ha)).trans hab.1, (hp b (hmem b hb)).trans hab.2⟩⟩

variable [DecidableEq α]

/-- From the first node of a chain into the sentinel `h`, the loop visits
    the nodes before `h`, given more steps than there are. The induction is
    on those nodes. -/
theorem walk_of_chain : ∀ {m : List α} {n : ℕ}, h ∉ m → (m ++ [h]).IsChain (Linked next prev) →
    m.length < n → walk next h n (some (m.headD h)) = m
  | [], 0, _, _, hn => absurd hn (Nat.lt_irrefl 0)
  | [], n + 1, _, _, _ => by simp [walk]
  | _ :: _, 0, _, _, hn => absurd hn (Nat.not_lt_zero _)
  | a :: m, n + 1, hm, hc, hn => by
    have hah : a ≠ h := fun e : a = h => hm (e ▸ List.mem_cons_self)
    obtain ⟨hlink, hrest⟩ := linked_headD hc
    have hlen : m.length < n := Nat.lt_of_succ_lt_succ hn
    show walk next h (n + 1) (some a) = a :: m
    rw [walk, if_neg hah, hlink.1,
      walk_of_chain (fun hm' => hm (List.mem_cons_of_mem a hm')) hrest hlen]

/-- `for (x = h->next; x != h; x = x->next)` visits the nodes of the ring in
    order. -/
theorem walk_eq (hr : LinkedRing next prev h l) {n : ℕ} (hn : l.length < n) : walk next h n (next h) = l := by
  rw [hr.next_sentinel]
  exact walk_of_chain (List.nodup_cons.mp hr.nodup).1 (linked_headD hr.chain).2 hn

/-- Linking `s` in after the sentinel, before the first node `l.headD h`,
    makes it the first node. -/
theorem insert (hr : LinkedRing next prev h l) (hs : s ∉ h :: l) :
    LinkedRing (Function.update (Function.update next s (some (l.headD h))) h (some s))
      (Function.update (Function.update prev s (some h)) (l.headD h) (some s)) h (s :: l) := by
  have hsh : s ≠ h := fun e : s = h => hs (e ▸ List.mem_cons_self)
  have hsl : s ∉ l ++ [h] := fun hm => hs (by simpa [or_comm] using hm)
  have hnd := nodup_append_singleton hr.nodup
  have hs₀ : s ≠ l.headD h := fun e : s = l.headD h => hs (e ▸ headD_mem l h)
  refine ⟨?_, ?_⟩
  · refine List.nodup_cons.mpr ⟨?_, List.nodup_cons.mpr ⟨fun hm => hs (List.mem_cons_of_mem h hm),
      (List.nodup_cons.mp hr.nodup).2⟩⟩
    intro hm
    rcases List.mem_cons.mp hm with e | hm
    · exact hsh e.symm
    · exact (List.nodup_cons.mp hr.nodup).1 hm
  refine List.IsChain.cons_cons ⟨Function.update_self .., ?_⟩ ?_
  · rw [Function.update_of_ne hs₀, Function.update_self]
  obtain ⟨hlink, hrest⟩ := linked_headD hr.chain
  refine List.isChain_cons.mpr ⟨fun y hy => ?_, ?_⟩
  · -- `s` now links to the old first node
    have hy' : y = l.headD h := by
      cases l <;> simpa using hy.symm
    subst hy'
    exact ⟨by rw [Function.update_of_ne hsh, Function.update_self], Function.update_self ..⟩
  -- every other link of the ring is as it was
  refine hrest.imp_of_mem_tail_imp fun a b ha hb hab => ⟨?_, ?_⟩
  · have hah : a ≠ h := by
      intro e
      rw [e] at hab
      have hb₀ : b = l.headD h := Option.some.inj (hab.1.symm.trans hlink.1)
      exact ne_headD_of_mem_tail hnd hb (d := h) (hb₀.trans (headD_append_singleton l h h).symm)
    have has : a ≠ s := fun e : a = s => hsl (e ▸ ha)
    rw [Function.update_of_ne hah, Function.update_of_ne has]
    exact hab.1
  · have hb₀ : b ≠ l.headD h := by
      rw [← headD_append_singleton l h h]
      exact ne_headD_of_mem_tail hnd hb
    have hbs : b ≠ s := fun e : b = s => hsl (e ▸ List.mem_of_mem_tail hb)
    rw [Function.update_of_ne hb₀, Function.update_of_ne hbs]
    exact hab.2

/-- Linking the nodes before and after `s` to each other, and `s`'s own
    pointers to null, takes `s` out of the ring. -/
theorem unlink (hr : LinkedRing next prev h (l₁ ++ s :: l₂)) :
    LinkedRing (Function.update (Function.update next (l₁.getLastD h) (some (l₂.headD h))) s none)
      (Function.update (Function.update prev (l₂.headD h) (some (l₁.getLastD h))) s none) h (l₁ ++ l₂) := by
  have hnd : (h :: l₁ ++ s :: l₂).Nodup := hr.nodup
  have hsl₁ : s ∉ h :: l₁ := fun hm => (List.nodup_append.mp hnd).2.2 s hm s List.mem_cons_self rfl
  have hsl₂ : s ∉ h :: l₂ := by
    have hsh : s ≠ h := fun e : s = h => hsl₁ (e ▸ List.mem_cons_self)
    intro hm
    rcases List.mem_cons.mp hm with e | hm
    · exact hsh e
    · exact (List.nodup_cons.mp (List.nodup_append.mp hnd).2.1).1 hm
  have hsl₂' : s ∉ l₂ ++ [h] := fun hm => hsl₂ (by simpa [or_comm] using hm)
  have hdisj : ∀ b ∈ l₁, b ∉ h :: l₂ := by
    intro b hb hb'
    rcases List.mem_cons.mp hb' with rfl | hb'
    · exact (List.nodup_cons.mp hr.nodup).1 (List.mem_append_left _ hb)
    · exact (List.nodup_append.mp hnd).2.2 b (List.mem_cons_of_mem h hb) b (List.mem_cons_of_mem s hb') rfl
  have hnd₂ : (l₂ ++ [h]).Nodup := nodup_append_singleton
    (List.nodup_cons.mpr ⟨fun hm => (List.nodup_cons.mp hr.nodup).1 (by simp [hm]),
      (List.nodup_cons.mp (List.nodup_append.mp hnd).2.1).2⟩)
  have hc : ((h :: l₁) ++ s :: (l₂ ++ [h])).IsChain (Linked next prev) := by
    simpa using hr.chain
  rw [List.isChain_split] at hc
  -- the node before `s` links to it
  have hlink : Linked next prev (l₁.getLastD h) s := by
    rw [← List.getLast_eq_getLastD (List.cons_ne_nil h l₁)]
    exact hc.1.rel_getLast_head_of_append (List.cons_ne_nil h l₁) (List.cons_ne_nil s [])
  have hp : l₁.getLastD h ≠ s := fun e : l₁.getLastD h = s => hsl₁ (e ▸ getLastD_mem l₁ h)
  have hn : l₂.headD h ≠ s := fun e : l₂.headD h = s => hsl₂ (e ▸ headD_mem l₂ h)
  refine ⟨hr.nodup.sublist (List.Sublist.cons_cons h
    (List.Sublist.append_left (List.sublist_cons_self s l₂) l₁)), ?_⟩
  rw [show h :: (l₁ ++ l₂ ++ [h]) = (h :: l₁) ++ (l₂ ++ [h]) by simp, List.isChain_append]
  refine ⟨?_, ?_, ?_⟩
  · -- the links before `s` are as they were
    refine hc.1.left_of_append.imp_of_mem_tail_imp fun a b ha hb hab => ⟨?_, ?_⟩
    · have hap : a ≠ l₁.getLastD h := by
        intro e
        rw [e] at hab
        have hbs : b = s := Option.some.inj (hab.1.symm.trans hlink.1)
        exact hsl₁ (hbs ▸ List.mem_of_mem_tail hb)
      rw [Function.update_of_ne (fun e : a = s => hsl₁ (e ▸ ha)), Function.update_of_ne hap]
      exact hab.1
    · have hb' : b ∈ l₁ := hb
      rw [Function.update_of_ne (fun e : b = s => hsl₁ (e ▸ List.mem_of_mem_tail hb)),
        Function.update_of_ne (fun e : b = l₂.headD h => hdisj b hb' (e ▸ headD_mem l₂ h))]
      exact hab.2
  · -- and so are the links after it
    refine (linked_headD hc.2).2.imp_of_mem_tail_imp fun a b ha hb hab => ⟨?_, ?_⟩
    · have hap : a ≠ l₁.getLastD h := by
        intro e
        rw [e] at hab
        have hbs : b = s := Option.some.inj (hab.1.symm.trans hlink.1)
        exact hsl₂' (hbs ▸ List.mem_of_mem_tail hb)
      rw [Function.update_of_ne (fun e : a = s => hsl₂' (e ▸ ha)), Function.update_of_ne hap]
      exact hab.1
    · have hbn : b ≠ l₂.headD h := by
        rw [← headD_append_singleton l₂ h h]
        exact ne_headD_of_mem_tail hnd₂ hb
      rw [Function.update_of_ne (fun e : b = s => hsl₂' (e ▸ List.mem_of_mem_tail hb)),
        Function.update_of_ne hbn]
      exact hab.2
  · -- the nodes around `s` now link to each other
    intro x hx y hy
    have hx' : x = l₁.getLastD h := by
      simpa [List.getLast?_cons] using hx.symm
    have hy' : y = l₂.headD h := by
      cases l₂ <;> simpa using hy.symm
    subst hx' hy'
    exact ⟨by rw [Function.update_of_ne hp, Function.update_self],
      by rw [Function.update_of_ne hn, Function.update_self]⟩

end LinkedRing
