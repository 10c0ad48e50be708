import Mathlib.Data.List.Perm.Subperm
import Mathlib.Logic.Function.Basic

/-!
# Linked lists in a heap

A heap of nodes of type `α` gives each node a successor `next a : Option α`
(`none` is the null pointer), and so holds singly linked lists: from a head
pointer `p`, following `next` visits the nodes `l` and then reaches null
(`Chain next p l`). A loop of the source over `x = x->next` is `walk` here,
and a search for the first node with a property is `search`; both take fuel,
and with as much fuel as the list is long they visit it (`walk_eq`,
`search_eq`).

* `Chain.unique`, `Chain.nodup`: the list is determined by the head, and
  visits no node twice (a cycle never reaches null);
* `Chain.frame`: changing `next` off the list keeps it;
* `Chain.append`: a list whose tail is replaced, its prefix kept, reads as
  the prefix and the new tail; so a node that skips its successor removes it
  (`Chain.unlink`).
-/

variable {α : Type*} (next : α → Option α)

/-- Following `next` from `p` visits the nodes `l`, then reaches null. -/
inductive Chain : Option α → List α → Prop
  | nil : Chain none []
  | cons {a : α} {l : List α} : Chain (next a) l → Chain (some a) (a :: l)

namespace Chain

/-- The nodes visited from `p` in at most `n` steps: the loop
    `for (x = p; x != nullptr; x = x->next)`. -/
def walk : ℕ → Option α → List α
  | 0, _ => []
  | _ + 1, none => []
  | n + 1, some a => a :: walk n (next a)

/-- The first node from `p`, within `n` steps, that satisfies `P`: the loop
    `for (x = p; x != nullptr; x = x->next) if (P(x)) return x;`. -/
def search (P : α → Bool) : ℕ → Option α → Option α
  | 0, _ => none
  | _ + 1, none => none
  | n + 1, some a => if P a then some a else search P n (next a)

@[simp] theorem walk_none (n : ℕ) : walk next n none = [] := by
  cases n <;> rfl

theorem search_eq_find? (P : α → Bool) (n : ℕ) (p : Option α) :
    search next P n p = (walk next n p).find? P := by
  induction n generalizing p with
  | zero => rfl
  | succ n ih =>
    cases p with
    | none => rfl
    | some a =>
      rw [search, walk, List.find?_cons]
      cases P a
      · exact ih _
      · rfl

variable {next}

@[simp] theorem none_iff {l : List α} : Chain next none l ↔ l = [] :=
  ⟨fun h => by cases h; rfl, fun h => h ▸ nil⟩

theorem some_iff {a : α} {l : List α} :
    Chain next (some a) l ↔ ∃ l', l = a :: l' ∧ Chain next (next a) l' :=
  ⟨fun h => by cases h with | cons h => exact ⟨_, rfl, h⟩, fun ⟨_, hl, h⟩ => hl ▸ cons h⟩

theorem head_eq {p : Option α} {l : List α} (h : Chain next p l) : p = l.head? := by
  cases h <;> rfl

theorem unique {p : Option α} {l l' : List α} (h : Chain next p l) (h' : Chain next p l') :
    l = l' := by
  induction h generalizing l' with
  | nil => exact (none_iff.mp h').symm
  | cons _ ih =>
    obtain ⟨l'', rfl, h''⟩ := some_iff.mp h'
    rw [ih h'']

/-- What follows a prefix is the list from its first node. -/
theorem of_append {p : Option α} {l₁ l₂ : List α} (h : Chain next p (l₁ ++ l₂)) :
    Chain next l₂.head? l₂ := by
  induction l₁ generalizing p with
  | nil => exact h.head_eq ▸ h
  | cons a l₁ ih =>
    cases h with
    | cons h => exact ih h

theorem nodup {p : Option α} {l : List α} (h : Chain next p l) : l.Nodup := by
  induction h with
  | nil => exact List.nodup_nil
  | @cons a l hl ih =>
    refine List.nodup_cons.mpr ⟨fun ha => ?_, ih⟩
    -- a cycle: from `a` the list would be both `a :: l` and a suffix of `l`
    obtain ⟨l₁, l₂, rfl⟩ := List.append_of_mem ha
    have hsuffix : Chain next (some a) (a :: l₂) := hl.of_append
    have hlen := congrArg List.length ((cons hl).unique hsuffix)
    simp only [List.length_cons, List.length_append] at hlen
    omega

/-- With as much fuel as the list is long, the walk visits it. -/
theorem walk_eq {p : Option α} {l : List α} (h : Chain next p l) {n : ℕ}
    (hn : l.length ≤ n) : walk next n p = l := by
  induction h generalizing n with
  | nil => cases n <;> rfl
  | cons _ ih =>
    obtain ⟨n, rfl⟩ : ∃ n', n = n' + 1 := ⟨n - 1, by simp only [List.length_cons] at hn; omega⟩
    rw [walk, ih (by simp only [List.length_cons] at hn; omega)]

theorem search_eq {p : Option α} {l : List α} (h : Chain next p l) {n : ℕ}
    (hn : l.length ≤ n) (P : α → Bool) : search next P n p = l.find? P := by
  rw [search_eq_find?, h.walk_eq hn]

theorem frame {next' : α → Option α} {p : Option α} {l : List α} (h : Chain next p l)
    (hl : ∀ a ∈ l, next' a = next a) : Chain next' p l := by
  induction h with
  | nil => exact nil
  | @cons a l _ ih =>
    refine cons ?_
    rw [hl a List.mem_cons_self]
    exact ih fun b hb => hl b (List.mem_cons_of_mem _ hb)

/-- A list whose tail `m` is replaced by `m'`, reached from where `m` was, with
    the links of the prefix kept. -/
theorem append {next' : α → Option α} {p : Option α} {l₁ m m' : List α}
    (h : Chain next p (l₁ ++ m)) (h' : Chain next' m.head? m')
    (hl : ∀ a ∈ l₁, next' a = next a) : Chain next' p (l₁ ++ m') := by
  induction l₁ generalizing p with
  | nil => exact h.head_eq ▸ h'
  | cons a l₁ ih =>
    cases h with
    | cons h =>
      refine cons ?_
      rw [hl a List.mem_cons_self]
      exact ih h fun b hb => hl b (List.mem_cons_of_mem _ hb)

variable [DecidableEq α]

/-- A node that skips its successor removes it from the list. -/
theorem unlink {p : Option α} {l₁ l₂ : List α} {y a : α}
    (h : Chain next p (l₁ ++ y :: a :: l₂)) :
    Chain (Function.update next y (next a)) p (l₁ ++ y :: l₂) := by
  have hnodup := h.nodup
  rw [List.nodup_append] at hnodup
  have hy₁ : y ∉ l₁ := fun hy => hnodup.2.2 y hy y List.mem_cons_self rfl
  have hy₂ : y ∉ l₂ := fun hy => (List.nodup_cons.mp hnodup.2.1).1 (List.mem_cons_of_mem _ hy)
  -- the tail after `a` is kept, now reached from `y`
  have hy : Chain next (some y) (y :: a :: l₂) := h.of_append
  have ha : Chain next (next y) (a :: l₂) := by cases hy with | cons h => exact h
  have hl₂ : Chain next (next a) l₂ := by
    rw [ha.head_eq] at ha
    cases ha with | cons h => exact h
  have htail : Chain (Function.update next y (next a)) (some y) (y :: l₂) := by
    refine cons ?_
    rw [Function.update_self]
    exact hl₂.frame fun b hb => Function.update_of_ne (fun hby : b = y => hy₂ (hby ▸ hb)) _ _
  exact h.append htail fun b hb => Function.update_of_ne (fun hby : b = y => hy₁ (hby ▸ hb)) _ _

end Chain

/-- A list of nodes numbered below `n` that visits none twice has at most
    `n` of them: enough fuel for a walk. -/
theorem List.length_le_of_nodup_of_lt {l : List ℕ} {n : ℕ} (hl : l.Nodup) (hlt : ∀ a ∈ l, a < n) :
    l.length ≤ n := by
  simpa using (List.subperm_of_subset hl fun a ha => List.mem_range.mpr (hlt a ha)).length_le

/-- A list of nodes numbered below `n` is what a walk of `n` steps visits. -/
theorem Chain.walk_eq_of_lt {next : ℕ → Option ℕ} {p : Option ℕ} {l : List ℕ} {n : ℕ}
    (h : Chain next p l) (hlt : ∀ a ∈ l, a < n) : Chain.walk next n p = l :=
  h.walk_eq (List.length_le_of_nodup_of_lt h.nodup hlt)
