import Mathlib.Logic.Function.Basic
import Mathlib.Data.List.Basic
import Mathlib.Data.Nat.Basic

/-!
# Malloc hook lists

A `HookList<T>` (malloc_hook-inl.h, malloc_hook.cc) keeps the hooks of one
kind in `kHookListCapacity = 8` slots. `Add` puts a hook in the first free
slot among the first `kHookListMaxValues = 7`; the last slot,
`kHookListSingularIdx`, holds the deprecated singular hook, which
`ExchangeSingular` sets or clears. `priv_end` is one more than the last slot
in use, so that `empty()` is one load; `Remove` and a cleared singular hook
move it down past the slots left empty (`FixupPrivEndLocked`). `Traverse`
copies at most `n` hooks from the slots below `priv_end`, and
`InvokeNewHookSlow` and `InvokeDeleteHookSlow` call those it copies, with
`n = kHookListMaxValues`.

A slot holds an `Option α`, `none` for the null `T{}`.

* `Inv.run`: along every sequence of `Add`, `Remove` and `ExchangeSingular`
  from the empty list, `priv_end` is one past the last slot in use, so
  `empty()` holds iff no hook is installed (`empty_run_iff`).
* `add_eq_true_iff`, `add_privData_singular`: `Add` succeeds iff its hook is
  not null and a regular slot is free, and never writes the singular slot;
  `privEnd_add_run` puts these together along every run.
* `invokeHookSlow_run`: an invocation calls the first seven installed hooks,
  in the order of their slots: all of them, unless all eight slots are in
  use, when the singular hook is left out.
-/

namespace Gperftools

/-- `kHookListCapacity`. -/
def kHookListCapacity : ℕ := 8

/-- `kHookListMaxValues`: the slots `Add` fills. -/
def kHookListMaxValues : ℕ := 7

/-- `kHookListSingularIdx`: the slot of the deprecated singular hook. -/
def kHookListSingularIdx : ℕ := 7

/-- A `HookList<T>`. -/
structure HookList (α : Type) where
  /-- `priv_end`: one more than the last slot in use. -/
  privEnd : ℕ
  /-- `priv_data`: the slots, `none` for a null hook. -/
  privData : ℕ → Option α

namespace HookList

variable {α : Type}

/-- The list as the linker initialises it: no hook. -/
def init : HookList α := ⟨0, fun _ => none⟩

/-- `empty()`. -/
def empty (l : HookList α) : Bool := l.privEnd == 0

/-! ## The operations -/

/-- The loop of `Add` that looks for the first free slot among the first
    `kHookListMaxValues`, from `index`. -/
def firstFree (data : ℕ → Option α) : ℕ → ℕ → ℕ
  | 0, index => index
  | fuel + 1, index =>
    if index < kHookListMaxValues ∧ (data index).isSome then firstFree data fuel (index + 1)
    else index

/-- `Add(value)`: whether the hook was added. -/
def add (l : HookList α) (value : Option α) : HookList α × Bool :=
  match value with
  | none => (l, false)
  | some v =>
    let index := firstFree l.privData kHookListMaxValues 0
    if index = kHookListMaxValues then (l, false)
    else
      let prevNumHooks := l.privEnd
      (⟨if prevNumHooks ≤ index then index + 1 else prevNumHooks,
        Function.update l.privData index (some v)⟩, true)

/-- The loop of `FixupPrivEndLocked`: down from `hooksEnd` past the null
    slots. -/
def fixupEnd (data : ℕ → Option α) : ℕ → ℕ
  | 0 => 0
  | e + 1 => if data e = none then fixupEnd data e else e + 1

/-- `FixupPrivEndLocked()`. -/
def fixupPrivEndLocked (l : HookList α) : HookList α :=
  { l with privEnd := fixupEnd l.privData l.privEnd }

/-- The loop of `Remove` that looks for `value` in the slots below
    `hooksEnd`, from `index`. -/
def findSlot [DecidableEq α] (data : ℕ → Option α) (v : α) (hooksEnd : ℕ) : ℕ → ℕ → ℕ
  | 0, index => index
  | fuel + 1, index =>
    if index < hooksEnd ∧ data index ≠ some v then findSlot data v hooksEnd fuel (index + 1)
    else index

/-- `Remove(value)`: whether the hook was found, and then removed from its
    first slot. -/
def remove [DecidableEq α] (l : HookList α) (value : Option α) : HookList α × Bool :=
  match value with
  | none => (l, false)
  | some v =>
    let hooksEnd := l.privEnd
    let index := findSlot l.privData v hooksEnd hooksEnd 0
    if index = hooksEnd then (l, false)
    else (fixupPrivEndLocked { l with privData := Function.update l.privData index none }, true)

/-- The loop of `Traverse`: the slots from `i` below `hooksEnd`, while
    fewer than `n` hooks were copied. -/
def traverseLoop (data : ℕ → Option α) (hooksEnd : ℕ) : ℕ → ℕ → ℕ → List α
  | 0, _, _ => []
  | fuel + 1, i, n =>
    if i < hooksEnd ∧ 0 < n then
      match data i with
      | some d => d :: traverseLoop data hooksEnd fuel (i + 1) (n - 1)
      | none => traverseLoop data hooksEnd fuel (i + 1) n
    else []

/-- `Traverse(output_array, n)`: the hooks copied, in order. -/
def traverse (l : HookList α) (n : ℕ) : List α := traverseLoop l.privData l.privEnd l.privEnd 0 n

/-- `ExchangeSingular(value)`: the singular hook before. -/
def exchangeSingular (l : HookList α) (value : Option α) : HookList α × Option α :=
  let oldValue := l.privData kHookListSingularIdx
  let l := { l with privData := Function.update l.privData kHookListSingularIdx value }
  if value.isSome then ({ l with privEnd := kHookListSingularIdx + 1 }, oldValue)
  else (fixupPrivEndLocked l, oldValue)

/-- The body of `InvokeNewHookSlow` and `InvokeDeleteHookSlow`: the hooks
    called, in order; none for a pointer of the emergency arena. -/
def invokeHookSlow (l : HookList α) (emergency : Bool) : List α :=
  if emergency then [] else traverse l kHookListMaxValues

/-- `InvokeNewHookSlow(p, s)`, on `new_hooks_`. -/
def invokeNewHookSlow (l : HookList α) (emergency : Bool) : List α := invokeHookSlow l emergency

/-- `InvokeDeleteHookSlow(p)`, on `delete_hooks_`. -/
def invokeDeleteHookSlow (l : HookList α) (emergency : Bool) : List α := invokeHookSlow l emergency

/-- The calls of the `MallocHook` API on one list:
    `MallocHook_Add*Hook`, `MallocHook_Remove*Hook`, `MallocHook_Set*Hook`. -/
inductive Op (α : Type) where
  | add (value : Option α)
  | remove (value : Option α)
  | exchangeSingular (value : Option α)
  deriving DecidableEq, Repr

/-- One call. -/
def Op.apply [DecidableEq α] (l : HookList α) : Op α → HookList α
  | .add v => (l.add v).1
  | .remove v => (l.remove v).1
  | .exchangeSingular v => (l.exchangeSingular v).1

/-- A sequence of calls. -/
def run [DecidableEq α] (l : HookList α) (ops : List (Op α)) : HookList α := ops.foldl Op.apply l

/-- The hooks installed, in the order of their slots. -/
def installed (l : HookList α) : List α := (List.range kHookListCapacity).filterMap l.privData

/-! ## The end of the slots in use -/

theorem fixupEnd_le (data : ℕ → Option α) : ∀ e, fixupEnd data e ≤ e
  | 0 => le_rfl
  | e + 1 => by
    unfold fixupEnd
    split
    · exact Nat.le_trans (fixupEnd_le data e) (Nat.le_succ e)
    · exact le_rfl

/-- The slots from the end the scan stops at are null. -/
theorem fixupEnd_none (data : ℕ → Option α) :
    ∀ e j, fixupEnd data e ≤ j → j < e → data j = none
  | 0, _, _, hj => absurd hj (Nat.not_lt_zero _)
  | e + 1, j, hle, hj => by
    unfold fixupEnd at hle
    split at hle
    · rcases Nat.lt_succ_iff_lt_or_eq.mp hj with hj | rfl
      · exact fixupEnd_none data e j hle hj
      · assumption
    · omega

/-- The slot below the end the scan stops at is in use. -/
theorem fixupEnd_last (data : ℕ → Option α) :
    ∀ e, 0 < fixupEnd data e → (data (fixupEnd data e - 1)).isSome
  | 0, h => absurd h (Nat.lt_irrefl 0)
  | e + 1, h => by
    unfold fixupEnd at h ⊢
    split
    · rw [if_pos ‹_›] at h
      exact fixupEnd_last data e h
    · rename_i hne
      exact Option.isSome_iff_ne_none.mpr hne

/-- Null slots above `e` do not move the end the scan stops at. -/
theorem fixupEnd_of_none {data : ℕ → Option α} {e : ℕ} :
    ∀ e', e ≤ e' → (∀ j, e ≤ j → j < e' → data j = none) → fixupEnd data e' = fixupEnd data e
  | 0, he, _ => by rw [Nat.le_zero.mp he]
  | e' + 1, he, hnone => by
    rcases Nat.lt_succ_iff_lt_or_eq.mp (Nat.lt_succ_of_le he) with he | rfl
    · have he' : e ≤ e' := Nat.le_of_lt_succ he
      rw [fixupEnd, if_pos (hnone e' he' (Nat.lt_succ_self e'))]
      exact fixupEnd_of_none e' he' fun j hj hje => hnone j hj (Nat.lt_succ_of_lt hje)
    · rfl

/-- The scan stops at `E` when the slots from `E` are null and the one
    below is in use. -/
theorem fixupEnd_eq {data : ℕ → Option α} {e E : ℕ} (hE : E ≤ e)
    (hnone : ∀ j, E ≤ j → j < e → data j = none) (hlast : 0 < E → (data (E - 1)).isSome) :
    fixupEnd data e = E := by
  rw [fixupEnd_of_none e hE hnone]
  cases E with
  | zero => rfl
  | succ E =>
    have := hlast (Nat.succ_pos E)
    rw [Nat.add_sub_cancel] at this
    rw [fixupEnd, if_neg (Option.isSome_iff_ne_none.mp this)]

/-! ## The invariant -/

/-- What holds of every list the API builds: nothing is written beyond the
    eight slots, and `priv_end` is one past the last slot in use. -/
structure Inv (l : HookList α) : Prop where
  outside : ∀ i, kHookListCapacity ≤ i → l.privData i = none
  privEnd : l.privEnd = fixupEnd l.privData kHookListCapacity

theorem Inv.init : Inv (init : HookList α) :=
  ⟨fun _ _ => rfl, rfl⟩

theorem Inv.privEnd_le {l : HookList α} (hl : Inv l) : l.privEnd ≤ kHookListCapacity := by
  rw [hl.privEnd]
  exact fixupEnd_le _ _

/-- The slots from `priv_end` on are null. -/
theorem Inv.none_of_le {l : HookList α} (hl : Inv l) {j : ℕ} (hj : l.privEnd ≤ j) :
    l.privData j = none := by
  by_cases h8 : j < kHookListCapacity
  · exact fixupEnd_none _ _ j (hl.privEnd ▸ hj) h8
  · exact hl.outside j (not_lt.mp h8)

/-- The slot below `priv_end` is in use. -/
theorem Inv.last {l : HookList α} (hl : Inv l) (hpos : 0 < l.privEnd) :
    (l.privData (l.privEnd - 1)).isSome := by
  rw [hl.privEnd] at hpos ⊢
  exact fixupEnd_last _ _ hpos

/-! ## `Add` -/

/-- The first free slot: every slot before it is in use, and it is free
    unless it is `kHookListMaxValues`. -/
theorem firstFree_spec (data : ℕ → Option α) :
    ∀ fuel index, index + fuel = kHookListMaxValues →
      index ≤ firstFree data fuel index ∧ firstFree data fuel index ≤ kHookListMaxValues ∧
      (∀ j, index ≤ j → j < firstFree data fuel index → (data j).isSome) ∧
      (firstFree data fuel index < kHookListMaxValues → data (firstFree data fuel index) = none)
  | 0, index, h => by
    simp only [firstFree, Nat.add_zero] at h ⊢
    exact ⟨le_rfl, Nat.le_of_eq h, fun j hj hj' => absurd hj' (not_lt.mpr hj),
      fun h' => absurd h (Nat.ne_of_lt h')⟩
  | fuel + 1, index, h => by
    unfold firstFree
    split
    · rename_i hused
      obtain ⟨h1, h2, h3, h4⟩ := firstFree_spec data fuel (index + 1) (by omega)
      refine ⟨by omega, h2, fun j hj hj' => ?_, h4⟩
      rcases Nat.eq_or_lt_of_le hj with rfl | hj
      · exact hused.2
      · exact h3 j hj hj'
    · rename_i hfree
      refine ⟨le_rfl, by omega, fun j hj hj' => absurd hj' (not_lt.mpr hj), fun hlt => ?_⟩
      simpa [hlt] using hfree

theorem add_eq_true_iff (l : HookList α) (value : Option α) :
    (l.add value).2 = true ↔ value.isSome ∧ ∃ i < kHookListMaxValues, l.privData i = none := by
  obtain ⟨-, hle, hused, hfree⟩ := firstFree_spec l.privData kHookListMaxValues 0 rfl
  cases value with
  | none => simp [add]
  | some v =>
    simp only [add, Option.isSome_some, true_and]
    split
    · rename_i hfull
      simp only [Bool.false_eq_true, false_iff, not_exists, not_and]
      intro i hi hnone
      have := hused i (Nat.zero_le i) (by omega)
      simp [hnone] at this
    · exact iff_of_true rfl ⟨_, lt_of_le_of_ne hle ‹_›, hfree (lt_of_le_of_ne hle ‹_›)⟩

/-- `Add` never writes the singular slot. -/
theorem add_privData_singular (l : HookList α) (value : Option α) :
    (l.add value).1.privData kHookListSingularIdx = l.privData kHookListSingularIdx := by
  obtain ⟨-, hle, -, -⟩ := firstFree_spec l.privData kHookListMaxValues 0 rfl
  cases value with
  | none => rfl
  | some v =>
    simp only [add]
    split
    · rfl
    · exact Function.update_of_ne (by unfold kHookListSingularIdx kHookListMaxValues at *; omega) _ _

theorem Inv.add {l : HookList α} (hl : Inv l) (value : Option α) : Inv (l.add value).1 := by
  obtain ⟨-, hle, -, hfree⟩ := firstFree_spec l.privData kHookListMaxValues 0 rfl
  have h8 := hl.privEnd_le
  cases value with
  | none => exact hl
  | some v =>
    simp only [HookList.add]
    split
    · exact hl
    · rename_i hne
      set r := firstFree l.privData kHookListMaxValues 0
      have hr8 : r < kHookListCapacity := by
        have := lt_of_le_of_ne hle hne
        unfold kHookListCapacity
        unfold kHookListMaxValues at this
        omega
      refine ⟨fun i hi => ?_, ?_⟩
      · show Function.update l.privData r (some v) i = none
        rw [Function.update_of_ne (by omega)]
        exact hl.outside i hi
      · show (if l.privEnd ≤ r then r + 1 else l.privEnd) =
          fixupEnd (Function.update l.privData r (some v)) kHookListCapacity
        symm
        by_cases hend : l.privEnd ≤ r
        · -- the new hook is at or past the old end: it is the last one
          rw [if_pos hend]
          refine fixupEnd_eq hr8 (fun j hj _ => ?_) fun _ => by simp
          rw [Function.update_of_ne (by omega)]
          exact hl.none_of_le (by omega)
        · -- the new hook is below the old end, which stays
          rw [if_neg hend]
          refine fixupEnd_eq h8 (fun j hj _ => ?_) fun hpos => ?_
          · rw [Function.update_of_ne (by omega)]
            exact hl.none_of_le hj
          · by_cases hlast : l.privEnd - 1 = r
            · rw [hlast, Function.update_self]
              rfl
            · rw [Function.update_of_ne hlast]
              exact hl.last hpos

/-! ## `Remove` and `ExchangeSingular` -/

theorem findSlot_le [DecidableEq α] (data : ℕ → Option α) (v : α) (hooksEnd : ℕ) :
    ∀ fuel index, index + fuel = hooksEnd → findSlot data v hooksEnd fuel index ≤ hooksEnd
  | 0, index, h => by simp only [findSlot]; omega
  | fuel + 1, index, h => by
    unfold findSlot
    split
    · exact findSlot_le data v hooksEnd fuel (index + 1) (by omega)
    · omega

theorem Inv.remove [DecidableEq α] {l : HookList α} (hl : Inv l) (value : Option α) : Inv (l.remove value).1 := by
  have h8 := hl.privEnd_le
  cases value with
  | none => exact hl
  | some v =>
    simp only [HookList.remove]
    split
    · exact hl
    · rename_i hne
      set k := findSlot l.privData v l.privEnd l.privEnd 0
      have hlt : k < l.privEnd := lt_of_le_of_ne (findSlot_le _ _ _ _ _ (Nat.zero_add _)) hne
      refine ⟨fun i hi => ?_, ?_⟩
      · show Function.update l.privData k none i = none
        rw [Function.update_of_ne (by omega)]
        exact hl.outside i hi
      · -- the slots between `priv_end` and the capacity stay null
        show fixupEnd (Function.update l.privData k none) l.privEnd =
          fixupEnd (Function.update l.privData k none) kHookListCapacity
        refine (fixupEnd_of_none kHookListCapacity h8 fun j hj _ => ?_).symm
        rw [Function.update_of_ne (by omega)]
        exact hl.none_of_le hj

theorem Inv.exchangeSingular {l : HookList α} (hl : Inv l) (value : Option α) :
    Inv (l.exchangeSingular value).1 := by
  have h8 := hl.privEnd_le
  have houtside : ∀ i, kHookListCapacity ≤ i →
      Function.update l.privData kHookListSingularIdx value i = none := fun i hi => by
    rw [Function.update_of_ne (by unfold kHookListCapacity kHookListSingularIdx at *; omega)]
    exact hl.outside i hi
  simp only [HookList.exchangeSingular]
  split
  · rename_i hsome
    refine ⟨houtside, ?_⟩
    show kHookListSingularIdx + 1 =
      fixupEnd (Function.update l.privData kHookListSingularIdx value) kHookListCapacity
    exact (fixupEnd_eq le_rfl (fun j hj hj8 => absurd hj8 (not_lt.mpr hj))
      fun _ => by simpa using hsome).symm
  · rename_i hnone
    refine ⟨houtside, ?_⟩
    show fixupEnd (Function.update l.privData kHookListSingularIdx value) l.privEnd =
      fixupEnd (Function.update l.privData kHookListSingularIdx value) kHookListCapacity
    refine (fixupEnd_of_none kHookListCapacity h8 fun j hj _ => ?_).symm
    by_cases hj7 : j = kHookListSingularIdx
    · rw [hj7, Function.update_self]
      simpa using hnone
    · rw [Function.update_of_ne hj7]
      exact hl.none_of_le hj

theorem Inv.apply [DecidableEq α] {l : HookList α} (hl : Inv l) : ∀ op : Op α, Inv (Op.apply l op)
  | .add v => hl.add v
  | .remove v => hl.remove v
  | .exchangeSingular v => hl.exchangeSingular v

theorem Inv.run [DecidableEq α] {l : HookList α} (hl : Inv l) (ops : List (Op α)) : Inv (l.run ops) := by
  induction ops generalizing l with
  | nil => exact hl
  | cons op ops ih => exact ih (hl.apply op)

/-! ## `Traverse` -/

theorem filterMap_range'_eq_nil {data : ℕ → Option α} {s k : ℕ}
    (hnone : ∀ j, s ≤ j → j < s + k → data j = none) : (List.range' s k).filterMap data = [] :=
  List.filterMap_eq_nil_iff.mpr fun j hj => by
    obtain ⟨hs, hk⟩ := List.mem_range'_1.mp hj
    exact hnone j hs hk

/-- `Traverse` copies the first `n` hooks in use among the slots it scans. -/
theorem traverseLoop_eq (data : ℕ → Option α) (hooksEnd : ℕ) :
    ∀ fuel i n, i + fuel = hooksEnd →
      traverseLoop data hooksEnd fuel i n = ((List.range' i fuel).filterMap data).take n
  | 0, _, n, _ => by simp [traverseLoop]
  | fuel + 1, i, n, h => by
    rw [traverseLoop, List.range'_succ, List.filterMap_cons]
    by_cases hn : 0 < n
    · rw [if_pos ⟨by omega, hn⟩]
      cases hd : data i with
      | some d =>
        obtain ⟨n, rfl⟩ := Nat.exists_eq_add_of_lt hn
        simp only [Nat.zero_add, Nat.add_sub_cancel, List.take_succ_cons]
        rw [traverseLoop_eq data hooksEnd fuel (i + 1) n (by omega)]
      | none => exact traverseLoop_eq data hooksEnd fuel (i + 1) n (by omega)
    · rw [if_neg (fun h' => hn h'.2), Nat.eq_zero_of_not_pos hn, List.take_zero]

/-- The hooks in use are those below `priv_end`. -/
theorem Inv.installed_eq {l : HookList α} (hl : Inv l) :
    l.installed = (List.range l.privEnd).filterMap l.privData := by
  have h8 := hl.privEnd_le
  have htail : (List.range' (0 + 1 * l.privEnd) (kHookListCapacity - l.privEnd)).filterMap
      l.privData = [] := filterMap_range'_eq_nil fun j hj _ => hl.none_of_le (by omega)
  rw [installed, List.range_eq_range', List.range_eq_range',
    show kHookListCapacity = l.privEnd + (kHookListCapacity - l.privEnd) by omega,
    ← List.range'_append, List.filterMap_append, htail, List.append_nil]

theorem Inv.traverse_eq {l : HookList α} (hl : Inv l) (n : ℕ) : l.traverse n = l.installed.take n := by
  rw [traverse, traverseLoop_eq _ _ _ 0 n (Nat.zero_add _), hl.installed_eq, List.range_eq_range']

/-! ## Every run of the API -/

section Run

variable [DecidableEq α] (ops : List (Op α))

/-- `priv_end` is one past the last slot in use, `0` when none is. -/
theorem privEnd_run :
    (∀ j, (init.run ops).privEnd ≤ j → (init.run ops).privData j = none) ∧
      (0 < (init.run ops).privEnd →
        ((init.run ops).privData ((init.run ops).privEnd - 1)).isSome) :=
  ⟨fun _ hj => (Inv.init.run ops).none_of_le hj, (Inv.init.run ops).last⟩

/-- `empty()` holds iff no hook is installed. -/
theorem empty_run_iff : (init.run ops).empty = true ↔ (init.run ops).installed = [] := by
  have hl := Inv.init.run ops
  rw [hl.installed_eq, empty, beq_iff_eq]
  constructor
  · intro h0
    rw [h0]
    rfl
  · intro hnil
    by_contra hpos
    have hlast := hl.last (Nat.pos_of_ne_zero hpos)
    have : (init.run ops).privData ((init.run ops).privEnd - 1) = none :=
      List.filterMap_eq_nil_iff.mp hnil _ (List.mem_range.mpr (by omega))
    simp [this] at hlast

/-- Along every run of the API from the empty list, `priv_end` is one past the
    last slot in use, `empty()` holds iff no hook is installed, and the next
    `Add` succeeds iff its hook is not null and a regular slot is free, and
    leaves the singular slot alone. -/
theorem privEnd_add_run :
    ((∀ j, (init.run ops).privEnd ≤ j → (init.run ops).privData j = none) ∧
      (0 < (init.run ops).privEnd → ((init.run ops).privData ((init.run ops).privEnd - 1)).isSome)) ∧
    ((init.run ops).empty = true ↔ (init.run ops).installed = []) ∧
    ∀ value, (((init.run ops).add value).2 = true ↔
        value.isSome ∧ ∃ i < kHookListMaxValues, (init.run ops).privData i = none) ∧
      ((init.run ops).add value).1.privData kHookListSingularIdx =
        (init.run ops).privData kHookListSingularIdx :=
  ⟨privEnd_run ops, empty_run_iff ops, fun value =>
    ⟨add_eq_true_iff _ value, add_privData_singular _ value⟩⟩

/-- An invocation calls the first `kHookListMaxValues` hooks installed, in the
    order of their slots: the singular hook is left out when the seven regular
    slots are in use as well. -/
theorem invokeHookSlow_run :
    invokeHookSlow (init.run ops) false = (init.run ops).installed.take kHookListMaxValues := by
  rw [invokeHookSlow, if_neg Bool.false_ne_true, (Inv.init.run ops).traverse_eq]

/-- Seven hooks added with `MallocHook_AddNewHook`, then an eighth set with
    the deprecated `MallocHook_SetNewHook`. -/
def eightHooks : List (Op ℕ) :=
  [.add (some 1), .add (some 2), .add (some 3), .add (some 4), .add (some 5), .add (some 6),
    .add (some 7), .exchangeSingular (some 8)]

/-- With the seven regular slots in use and a singular hook set, eight hooks
    are installed, but `InvokeNewHookSlow` asks `Traverse` for at most
    `kHookListMaxValues = 7` and never calls the singular one. -/
theorem invokeNewHookSlow_skips_singular :
    (init.run eightHooks).installed = [1, 2, 3, 4, 5, 6, 7, 8] ∧
      invokeNewHookSlow (init.run eightHooks) false = [1, 2, 3, 4, 5, 6, 7] := by
  have hinst : (init.run eightHooks).installed = [1, 2, 3, 4, 5, 6, 7, 8] := by decide
  refine ⟨hinst, ?_⟩
  rw [invokeNewHookSlow, invokeHookSlow_run, hinst]
  rfl

end Run

end HookList

end Gperftools
