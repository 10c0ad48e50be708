import Mathlib.Order.Basic
import Mathlib.Data.Option.Basic

/-!
# First values of a function

`scanFrom f n i` is the first value that `f` takes at `i, i + 1, ...,
i + n - 1`: the loop `for (j = i; j < i + n; j++) if (f(j) != nullptr) return
f(j);` over a partial function.

* `scanFrom_add`, `scanFrom_sub_split`: a scan of `a + b` places is a scan of
  the first `a`, then one of the next `b`;
* `scanFrom_eq_none_iff`: a scan finds nothing exactly when `f` has no value
  in its range;
* `scanFrom_congr`, `scanFrom_shift`: a scan only reads its range, wherever
  that lies.
-/

variable {α : Type*}

/-- The first value of `f` at `i, i + 1, ..., i + n - 1`. -/
def scanFrom (f : ℕ → Option α) : ℕ → ℕ → Option α
  | 0, _ => none
  | n + 1, i => (f i).or (scanFrom f n (i + 1))

variable {f g : ℕ → Option α}

@[simp] theorem scanFrom_zero (i : ℕ) : scanFrom f 0 i = none := rfl

theorem scanFrom_succ (n i : ℕ) : scanFrom f (n + 1) i = (f i).or (scanFrom f n (i + 1)) := rfl

/-- A scan of `a + b` places is one of the first `a`, then one of the next
    `b`. -/
theorem scanFrom_add (a b i : ℕ) :
    scanFrom f (a + b) i = (scanFrom f a i).or (scanFrom f b (i + a)) := by
  induction a generalizing i with
  | zero => simp
  | succ a ih =>
    rw [Nat.add_right_comm, scanFrom_succ, ih, scanFrom_succ, Option.or_assoc,
      Nat.add_right_comm i 1 a, Nat.add_assoc]

/-- A scan from `i` up to `e` is one from `i` up to `j`, then one from `j`
    up to `e`. -/
theorem scanFrom_sub_split {i j e : ℕ} (h1 : i ≤ j) (h2 : j ≤ e) :
    scanFrom f (e - i) i = (scanFrom f (j - i) i).or (scanFrom f (e - j) j) := by
  rw [show e - i = (j - i) + (e - j) by omega, scanFrom_add, Nat.add_sub_cancel' h1]

theorem scanFrom_eq_none_iff {n i : ℕ} :
    scanFrom f n i = none ↔ ∀ j, i ≤ j → j < i + n → f j = none := by
  induction n generalizing i with
  | zero => simp only [scanFrom_zero, true_iff]; intro j h1 h2; omega
  | succ n ih =>
    rw [scanFrom_succ, Option.or_eq_none_iff, ih]
    constructor
    · rintro ⟨hi, hrest⟩ j h1 h2
      rcases Nat.eq_or_lt_of_le h1 with rfl | h1
      · exact hi
      · exact hrest j h1 (by omega)
    · intro h
      exact ⟨h i (Nat.le_refl i) (by omega), fun j h1 h2 => h j (by omega) (by omega)⟩

/-- A scan of `f` shifted by `c` is a scan of `f` from `i + c`. -/
theorem scanFrom_shift (c n i : ℕ) : scanFrom (fun j => f (j + c)) n i = scanFrom f n (i + c) := by
  induction n generalizing i with
  | zero => rfl
  | succ n ih => rw [scanFrom_succ, scanFrom_succ, ih, Nat.add_right_comm]

/-- A scan only reads `f` in its range. -/
theorem scanFrom_congr {n i : ℕ} (h : ∀ j, i ≤ j → j < i + n → f j = g j) :
    scanFrom f n i = scanFrom g n i := by
  induction n generalizing i with
  | zero => rfl
  | succ n ih =>
    rw [scanFrom_succ, scanFrom_succ, h i (Nat.le_refl i) (by omega),
      ih fun j h1 h2 => h j (by omega) (by omega)]
