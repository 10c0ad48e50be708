import Mathlib.Logic.Function.Basic
import Mathlib.Data.List.Basic

/-!
# Direct-mapped maps

A direct-mapped map keeps each key in one slot, given by a function
`slot : α → ι`. A slot holds at most one key with its value, and writing a
key replaces whatever its slot held. This is what a direct-mapped cache is
for: a lookup of `k` finds a value only if `k` was the last key written to
its slot since the slot was last emptied.

* `run_apply`: after a run of operations, a slot holds what the last
  operation touching it wrote, or what it held before if none did;
* `lookup_run_empty_eq_some_iff`: from the empty map, a lookup of `k` finds
  `v` exactly when the last operation touching the slot of `k` put `v` under
  `k`.
-/

variable {ι α β : Type*}

/-- The slots of a direct-mapped map, each holding at most one key and its
    value. -/
def DirectMap (ι α β : Type*) : Type _ := ι → Option (α × β)

namespace DirectMap

/-- The operations on a direct-mapped map. -/
inductive Op (α β : Type*)
  | put (k : α) (v : β)
  | invalidate (k : α)
  | clear
  deriving DecidableEq, Repr

variable [DecidableEq ι] (slot : α → ι)

/-- The map with every slot empty. -/
def empty : DirectMap ι α β := fun _ => none

/-- The value of `k`, if its slot holds `k`. -/
def lookup [DecidableEq α] (m : DirectMap ι α β) (k : α) : Option β :=
  match m (slot k) with
  | some (k', v) => if k' = k then some v else none
  | none => none

/-- What an operation leaves in the slots it touches. -/
def Op.written : Op α β → Option (α × β)
  | .put k v => some (k, v)
  | .invalidate _ => none
  | .clear => none

/-- Whether an operation touches the slot `i`: `clear` touches every slot. -/
def Op.touches (i : ι) : Op α β → Bool
  | .put k _ => decide (slot k = i)
  | .invalidate k => decide (slot k = i)
  | .clear => true

/-- Performs an operation. -/
def Op.apply (m : DirectMap ι α β) : Op α β → DirectMap ι α β
  | .put k v => Function.update m (slot k) (some (k, v))
  | .invalidate k => Function.update m (slot k) none
  | .clear => empty

/-- Performs the operations in order. -/
def run (m : DirectMap ι α β) (ops : List (Op α β)) : DirectMap ι α β :=
  ops.foldl (Op.apply slot) m

/-- The last operation of `ops` that touches the slot `i`. -/
def lastTouching (i : ι) (ops : List (Op α β)) : Option (Op α β) :=
  (ops.filter (Op.touches slot i)).getLast?

variable {slot}

theorem Op.apply_of_touches {m : DirectMap ι α β} {op : Op α β} {i : ι}
    (h : op.touches slot i = true) : op.apply slot m i = op.written := by
  cases op with
  | put k v =>
    simp only [touches, decide_eq_true_eq] at h
    subst h
    exact Function.update_self _ _ _
  | invalidate k =>
    simp only [touches, decide_eq_true_eq] at h
    subst h
    exact Function.update_self _ _ _
  | clear => rfl

theorem Op.apply_of_not_touches {m : DirectMap ι α β} {op : Op α β} {i : ι}
    (h : op.touches slot i = false) : op.apply slot m i = m i := by
  cases op with
  | put k v =>
    simp only [touches, decide_eq_false_iff_not] at h
    exact Function.update_of_ne (Ne.symm h) _ _
  | invalidate k =>
    simp only [touches, decide_eq_false_iff_not] at h
    exact Function.update_of_ne (Ne.symm h) _ _
  | clear => cases h

/-- A later operation touching the slot hides an earlier one. -/
theorem lastTouching_cons (i : ι) (op : Op α β) (ops : List (Op α β)) :
    lastTouching slot i (op :: ops) =
      (lastTouching slot i ops).or (if op.touches slot i then some op else none) := by
  unfold lastTouching
  rw [List.filter_cons]
  split_ifs with h
  · rw [List.getLast?_cons]
    cases (ops.filter (Op.touches slot i)).getLast? <;> rfl
  · cases (ops.filter (Op.touches slot i)).getLast? <;> rfl

/-- After a run, a slot holds what the last operation touching it wrote, or
    what it held before the run if no operation touched it. -/
theorem run_apply (m : DirectMap ι α β) (ops : List (Op α β)) (i : ι) :
    run slot m ops i = match lastTouching slot i ops with
      | some op => op.written
      | none => m i := by
  induction ops generalizing m with
  | nil => rfl
  | cons op ops ih =>
    change run slot (op.apply slot m) ops i = _
    rw [ih, lastTouching_cons]
    cases lastTouching slot i ops with
    | some op' => rfl
    | none =>
      -- no later operation touched the slot: it holds what `op` left there
      cases h : op.touches slot i
      · simp [Op.apply_of_not_touches h]
      · simp [Op.apply_of_touches h]

variable [DecidableEq α]

/-- From the empty map, a lookup of `k` finds `v` exactly when the last
    operation touching the slot of `k` put `v` under `k`. -/
theorem lookup_run_empty_eq_some_iff (ops : List (Op α β)) (k : α) (v : β) :
    lookup slot (run slot empty ops) k = some v ↔
      lastTouching slot (slot k) ops = some (.put k v) := by
  unfold lookup
  rw [run_apply]
  cases lastTouching slot (slot k) ops with
  | none => simp [empty]
  | some op =>
    cases op with
    | put k' v' =>
      simp only [Op.written, Option.some.injEq, Op.put.injEq]
      split_ifs with hk
      · simp [hk, eq_comm]
      · simp [hk]
    | invalidate k' => simp [Op.written]
    | clear => simp [Op.written]

end DirectMap
