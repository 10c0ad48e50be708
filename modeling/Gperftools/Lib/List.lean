import Mathlib.Algebra.BigOperators.Group.List.Basic
import Mathlib.Algebra.Order.BigOperators.Group.List
import Mathlib.Algebra.Order.Group.Nat
import Mathlib.Data.List.GetD
import Mathlib.Algebra.GroupWithZero.Nat

/-!
# Lists as arrays

Fixed-size arrays of C code are modelled by lists, read with `getD` and
written with `set`. A weight summed over such an array changes, under a
write, by the difference of the old and the new element: `sum_map_set` is
the one fact about writes the counting arguments need.

A strictly increasing list is a table of thresholds: the number of its
elements below `t` is the index of the first element at least `t`
(`le_getD_countP`, `getD_lt_of_lt_countP`). Below any `x`, some element of a
list of thresholds, or `0`, has no threshold between it and `x`
(`exists_floor_mem`): a function that changes only at thresholds takes all its
values at them. A list increasing in a key splits at any value into the
elements below it and the others (`exists_split_of_pairwise`).

Reading the slots of an array one by one, in bounds, reads its prefix
(`mapM_getElem?_range`, `map_getElem?_range`), and a search for an element
past a part of the array that has none finds it where that part ends
(`idxOf?_append_cons`).

A loop over an array whose body can fail is a traversal in `Except`: it
succeeds when every element does (`mapM_except_ok`), and otherwise fails
with the error of the first element that fails (`mapM_except_error`).

A table of lists, one per index, holds its elements once each: the search of
a list whose elements have distinct keys finds the one with the key
(`find?_eq_some_of_nodup_map`), and changing the list at one index changes
the elements of the whole table by what that list gains or loses
(`flatMap_perm_of_update`).
-/

namespace List

variable {α : Type*}

/-- Writing `a` at `i` trades the weight of the old element for that of `a`. -/
theorem sum_map_set (g : α → ℕ) :
    ∀ (l : List α) (i : ℕ) (a : α) (d : α), i < l.length →
      ((l.set i a).map g).sum + g (l.getD i d) = (l.map g).sum + g a
  | [], _, _, _, h => absurd h (Nat.not_lt_zero _)
  | b :: l, 0, a, _, _ => by
    simp only [set_cons_zero, map_cons, sum_cons, getD_cons_zero]
    omega
  | b :: l, i + 1, a, d, h => by
    have ih := sum_map_set g l i a d (by simpa using h)
    simp only [set_cons_succ, map_cons, sum_cons, getD_cons_succ]
    omega

section Thresholds

variable [LinearOrder α] {t : α}

/-- Above an element of an increasing list that is at least `t`, none is
    below `t`. -/
theorem countP_lt_eq_zero {a : α} {l : List α} (hl : (a :: l).Pairwise (· < ·)) (ha : t ≤ a) :
    (a :: l).countP (fun x => decide (x < t)) = 0 := by
  rw [countP_eq_zero]
  intro x hx
  rcases mem_cons.1 hx with rfl | hx
  · simpa using ha
  · simpa using ha.trans (rel_of_pairwise_cons hl hx).le

/-- Some element at least `t` comes after all those below it. -/
theorem countP_lt_lt_length :
    ∀ {l : List α}, l.Pairwise (· < ·) → (∃ x ∈ l, t ≤ x) →
      l.countP (fun x => decide (x < t)) < l.length
  | [], _, ⟨_, hx, _⟩ => absurd hx (not_mem_nil)
  | a :: l, hl, ⟨x, hx, htx⟩ => by
    by_cases hat : a < t
    · have hx' : x ∈ l := (mem_cons.1 hx).resolve_left (by rintro rfl; exact absurd htx (not_le.2 hat))
      have ih := countP_lt_lt_length (pairwise_cons.1 hl).2 ⟨x, hx', htx⟩
      rw [countP_cons_of_pos (by simpa using hat), length_cons]
      omega
    · rw [countP_lt_eq_zero hl (not_lt.1 hat)]
      exact Nat.succ_pos _

/-- The element after all those below `t` is at least `t`. -/
theorem le_getD_countP (d : α) :
    ∀ {l : List α}, l.Pairwise (· < ·) → (∃ x ∈ l, t ≤ x) →
      t ≤ l.getD (l.countP (fun x => decide (x < t))) d
  | [], _, ⟨_, hx, _⟩ => absurd hx (not_mem_nil)
  | a :: l, hl, ⟨x, hx, htx⟩ => by
    by_cases hat : a < t
    · have hx' : x ∈ l := (mem_cons.1 hx).resolve_left (by rintro rfl; exact absurd htx (not_le.2 hat))
      rw [countP_cons_of_pos (by simpa using hat), getD_cons_succ]
      exact le_getD_countP d (pairwise_cons.1 hl).2 ⟨x, hx', htx⟩
    · rw [countP_lt_eq_zero hl (not_lt.1 hat), getD_cons_zero]
      exact not_lt.1 hat

/-- The elements before those at least `t` are below `t`. -/
theorem getD_lt_of_lt_countP (d : α) :
    ∀ {l : List α} {i : ℕ}, l.Pairwise (· < ·) → i < l.countP (fun x => decide (x < t)) →
      l.getD i d < t
  | [], _, _, hi => absurd hi (Nat.not_lt_zero _)
  | a :: l, i, hl, hi => by
    by_cases hat : a < t
    · rw [countP_cons_of_pos (by simpa using hat)] at hi
      cases i with
      | zero => exact hat
      | succ i =>
        rw [getD_cons_succ]
        exact getD_lt_of_lt_countP d (pairwise_cons.1 hl).2 (by omega)
    · rw [countP_lt_eq_zero hl (not_lt.1 hat)] at hi
      exact absurd hi (Nat.not_lt_zero _)

/-- The element before the first element at least `t`, or `a` when there is
    none before, is below `t`. -/
theorem getD_cons_countP_lt (d : α) {a : α} {l : List α} (ha : a < t) (hl : l.Pairwise (· < ·)) :
    (a :: l).getD (l.countP (fun x => decide (x < t))) d < t := by
  cases h : l.countP (fun x => decide (x < t)) with
  | zero => exact ha
  | succ i =>
    rw [getD_cons_succ]
    exact getD_lt_of_lt_countP d hl (by omega)

end Thresholds

/-- A list increasing in `key` splits at any `x`: the elements whose key is
    below `x`, then the others. -/
theorem exists_split_of_pairwise {β : Type*} [LinearOrder β] (key : α → β) (x : β) :
    ∀ {l : List α}, l.Pairwise (fun a b => key a < key b) →
      ∃ pre post, l = pre ++ post ∧ (∀ a ∈ pre, key a < x) ∧ ∀ b ∈ post, x ≤ key b
  | [], _ => ⟨[], [], rfl, by simp, by simp⟩
  | a :: l, hl => by
    rw [pairwise_cons] at hl
    by_cases ha : key a < x
    · -- `a` is below `x`, and the rest splits the same way
      obtain ⟨pre, post, rfl, hpre, hpost⟩ := exists_split_of_pairwise key x hl.2
      exact ⟨a :: pre, post, rfl, by simpa [ha] using hpre, hpost⟩
    · refine ⟨[], a :: l, rfl, by simp, ?_⟩
      intro b hb
      rcases mem_cons.mp hb with rfl | hb
      · exact not_lt.mp ha
      · exact (not_lt.mp ha).trans (hl.1 b hb).le

/-- Below `x`, the largest threshold of `ts` at most `x`, or `0`, has no
    threshold after it up to `x`. -/
theorem exists_floor_mem (x : ℕ) :
    ∀ ts : List ℕ, ∃ y ∈ 0 :: ts, y ≤ x ∧ ∀ t ∈ ts, ¬ (y < t ∧ t ≤ x)
  | [] => ⟨0, mem_cons_self, Nat.zero_le x, fun _ ht => absurd ht not_mem_nil⟩
  | t :: ts => by
    obtain ⟨y, hy, hyx, hno⟩ := exists_floor_mem x ts
    by_cases ht : y < t ∧ t ≤ x
    · -- `t` is a later threshold below `x`: it becomes the floor
      refine ⟨t, mem_cons_of_mem 0 mem_cons_self, ht.2, ?_⟩
      intro t' ht'
      rcases mem_cons.1 ht' with rfl | ht'
      · omega
      · have := hno t' ht'
        omega
    · refine ⟨y, ?_, hyx, ?_⟩
      · rcases mem_cons.1 hy with rfl | hy
        · exact mem_cons_self
        · exact mem_cons_of_mem 0 (mem_cons_of_mem t hy)
      · intro t' ht'
        rcases mem_cons.1 ht' with rfl | ht'
        · exact ht
        · exact hno t' ht'

section Except

variable {β ε : Type*} {f : α → Except ε β}

/-- A traversal in which every element succeeds succeeds, and its results
    have what each element's result has. -/
theorem mapM_except_ok {P : β → Prop} :
    ∀ {l : List α}, (∀ a ∈ l, ∃ b, f a = .ok b ∧ P b) → ∃ bs, l.mapM f = .ok bs ∧ ∀ b ∈ bs, P b
  | [], _ => ⟨[], rfl, fun _ hb => absurd hb not_mem_nil⟩
  | a :: l, h => by
    obtain ⟨b, hb, hPb⟩ := h a mem_cons_self
    obtain ⟨bs, hbs, hPbs⟩ := mapM_except_ok fun a' ha' => h a' (mem_cons_of_mem _ ha')
    refine ⟨b :: bs, ?_, ?_⟩
    · simp [mapM_cons, hb, hbs, bind, Except.bind, pure, Except.pure]
    · rintro b' (_ | ⟨_, hb'⟩)
      · exact hPb
      · exact hPbs b' hb'

/-- A traversal fails with the error of its first failing element. -/
theorem mapM_except_error {e : ε} {a : α} (l₂ : List α) (ha : f a = .error e) :
    ∀ {l₁ : List α}, (∀ a ∈ l₁, ∃ b, f a = .ok b) → (l₁ ++ a :: l₂).mapM f = .error e
  | [], _ => by simp [mapM_cons, ha, bind, Except.bind]
  | a' :: l₁, h => by
    obtain ⟨b, hb⟩ := h a' mem_cons_self
    have hrest := mapM_except_error l₂ ha fun a'' ha'' => h a'' (mem_cons_of_mem _ ha'')
    simp [mapM_cons, hb, hrest, bind, Except.bind]

end Except

section Reads

/-- A traversal reads only the elements of the list. -/
theorem mapM_congr {m : Type → Type*} [Monad m] [LawfulMonad m] {β : Type} {f g : α → m β} :
    ∀ {l : List α}, (∀ a ∈ l, f a = g a) → l.mapM f = l.mapM g
  | [], _ => rfl
  | a :: l, h => by
    rw [mapM_cons, mapM_cons, h a mem_cons_self, mapM_congr fun a' ha' => h a' (mem_cons_of_mem _ ha')]

/-- Reading the first `n` elements of an array one by one, each read in
    bounds, gives its prefix of `n`. -/
theorem mapM_getElem?_range (l : List α) : ∀ {n : ℕ}, n ≤ l.length →
    (range n).mapM (fun d => l[d]?) = some (l.take n)
  | 0, _ => rfl
  | n + 1, h => by
    rw [range_succ, mapM_append, mapM_getElem?_range l (by omega), take_add_one,
      getElem?_eq_getElem (by omega)]
    simp [getElem?_eq_getElem (show n < l.length by omega)]

/-- A loop that appends `f a` for each `a` builds the map. -/
theorem foldl_append_singleton {β : Type*} (f : α → β) :
    ∀ (l : List α) (acc : List β), l.foldl (fun acc a => acc ++ [f a]) acc = acc ++ l.map f
  | [], acc => by simp
  | a :: l, acc => by rw [foldl_cons, foldl_append_singleton f l, map_cons, append_assoc, singleton_append]

/-- The slots of an array read one by one over its whole length. -/
theorem map_getElem?_range (l : List α) : (range l.length).map (fun i => l[i]?) = l.map some :=
  ext_getElem (by simp) fun i _ _ => by simp

/-- A search for `c` past a part that has none finds it where that part
    ends. -/
theorem idxOf?_append_cons [BEq α] [LawfulBEq α] {c : α} {rest : List α} :
    ∀ {l : List α}, c ∉ l → (l ++ c :: rest).idxOf? c = some l.length
  | [], _ => by rw [nil_append, idxOf?_cons, if_pos (beq_self_eq_true c), length_nil]
  | a :: l, hc => by
    have ha : (a == c) = false := beq_eq_false_iff_ne.mpr fun h => hc (h ▸ mem_cons_self)
    rw [cons_append, idxOf?_cons, ha, if_neg Bool.false_ne_true,
      idxOf?_append_cons fun h => hc (mem_cons_of_mem _ h)]
    rfl

end Reads

section Tables

variable {β : Type*}

/-- In a list whose elements have distinct keys, the search for the key of
    `a` finds `a`. -/
theorem find?_eq_some_of_nodup_map [BEq β] [LawfulBEq β] {f : α → β} {a : α} {b : β}
    (hfa : f a = b) : ∀ {l : List α}, (l.map f).Nodup → a ∈ l → l.find? (fun x => f x == b) = some a
  | x :: l, hl, ha => by
    rw [map_cons, nodup_cons] at hl
    rw [find?_cons]
    by_cases hx : f x = b
    · -- the key of `x` is not among those after it, so `x` is `a`
      have hxa : x = a := by
        rcases mem_cons.mp ha with rfl | ha'
        · rfl
        · exact absurd (mem_map.mpr ⟨a, ha', hfa.trans hx.symm⟩) hl.1
      rw [beq_iff_eq.mpr hx, hxa]
    · have ha' : a ∈ l := by
        rcases mem_cons.mp ha with rfl | ha'
        · exact absurd hfa hx
        · exact ha'
      rw [show (f x == b) = false from beq_eq_false_iff_ne.mpr hx]
      exact find?_eq_some_of_nodup_map hfa hl.2 ha'

/-- A table `l.flatMap f` whose list at one index `a` changes to `g a`: what
    the table loses is what that list loses. -/
theorem flatMap_perm_of_update {f g : α → List β} {a : α} :
    ∀ {l : List α}, l.Nodup → a ∈ l → (∀ x ∈ l, x ≠ a → g x = f x) →
      (l.flatMap g ++ f a).Perm (l.flatMap f ++ g a)
  | x :: l, hl, ha, hg => by
    rw [nodup_cons] at hl
    simp only [flatMap_cons, append_assoc]
    by_cases hxa : x = a
    · -- the other lists are kept
      subst hxa
      have hrest : l.flatMap g = l.flatMap f :=
        flatMap_congr fun y hy => hg y (mem_cons_of_mem _ hy) fun h => hl.1 (h ▸ hy)
      rw [hrest]
      calc g x ++ (l.flatMap f ++ f x) ~ (l.flatMap f ++ f x) ++ g x := perm_append_comm
        _ ~ (f x ++ l.flatMap f) ++ g x := perm_append_comm.append_right _
        _ = f x ++ (l.flatMap f ++ g x) := append_assoc _ _ _
    · rw [hg x mem_cons_self hxa]
      exact (flatMap_perm_of_update hl.2 ((mem_cons.mp ha).resolve_left (Ne.symm hxa))
        fun y hy => hg y (mem_cons_of_mem _ hy)).append_left _

end Tables

end List
