import Mathlib.Data.Int.Init
import Mathlib.Tactic.Positivity
import Mathlib.Data.Nat.Bitwise

/-!
# Machine words

Unsigned words of `w` bits are natural numbers below `2 ^ w`, with the
arithmetic of C's unsigned types: sums and differences wrap around
(`Word.add`, `Word.sub`). Converting a word to a signed type of `w` bits
reads its low `w` bits in two's complement (`Word.signed`), and converting an
integer to an unsigned word takes it modulo `2 ^ w` (`Word.ofInt`), which
sign-extends a narrower signed value.

* `add_of_lt`, `sub_of_le`: away from the wrap, the word operations are the
  operations of `ℕ`, and `sub_of_lt`: below zero a difference wraps;
  `add_add`, `sub_add_self`, `add_sub_cancel`: sums wrap once, at the end, a
  difference reads the amount added modulo `2 ^ w`, and adding back what was
  subtracted undoes the subtraction;
* `and_complement`: masking with the complement of `2 ^ j - 1` rounds a
  word down to a multiple of `2 ^ j`, and `or_two_pow_sub_one`: or-ing
  with `2 ^ j - 1` rounds it up to the last value before the next one;
  `testBit_complement`: the bits of `~x` are those of `x` flipped;
* `add_sub_one_and_complement`: `(x + 2 ^ j - 1) & ~(2 ^ j - 1)` rounds `x`
  up to a multiple of `2 ^ j`;
* `le_roundUp`, `dvd_add_sub_mod`: rounding `x` up to a multiple of `a`
  gives at least `x`, and so does adding what `x` lacks to one;
  `max_two_pow`: the larger of two powers of two is one, and
  `le_mod_of_dvd`: the offset of a multiple of `p` from a multiple of a
  multiple of `p` is `0` or at least `p`;
* `signed_mod`: the signed reading of a word takes its low `w` bits, and
  `signed_neg_of_le_mod`: it is negative when the top one of them is set;
* `signed_ofInt_of_nonneg`: a value of `[0, 2 ^ w)` stored into a signed
  word keeps its value below `2 ^ (w - 1)` and turns negative above;
* `signed_of_ge`: narrowing a word to a signed word of `w` bits turns the
  values from `2 ^ (w - 1)` to `2 ^ w` negative, and `ofInt_signed_of_ge`:
  widened back to `v` bits they become `2 ^ v - 2 ^ w` more.
-/

namespace Word

/-- Unsigned addition of `w`-bit words. -/
def add (w a b : ℕ) : ℕ := (a + b) % 2 ^ w

/-- Unsigned subtraction of `w`-bit words. -/
def sub (w a b : ℕ) : ℕ := (a + (2 ^ w - b % 2 ^ w)) % 2 ^ w

/-- The low `w` bits of `x`, read as a signed (two's complement) word. -/
def signed (w x : ℕ) : ℤ := Int.bmod x (2 ^ w)

/-- An integer converted to an unsigned `w`-bit word. -/
def ofInt (w : ℕ) (z : ℤ) : ℕ := (z % 2 ^ w).toNat

/-- The bitwise complement `~x` of a `w`-bit word. -/
def complement (w x : ℕ) : ℕ := 2 ^ w - 1 - x

variable {w a b x : ℕ}

theorem add_of_lt (h : a + b < 2 ^ w) : add w a b = a + b := Nat.mod_eq_of_lt h

theorem sub_of_le (hb : b ≤ a) (ha : a < 2 ^ w) : sub w a b = a - b := by
  have hb' : b % 2 ^ w = b := Nat.mod_eq_of_lt (by omega)
  unfold sub
  rw [hb']
  have hw : 0 < 2 ^ w := Nat.two_pow_pos w
  rw [show a + (2 ^ w - b) = (a - b) + 2 ^ w by omega, Nat.add_mod_right]
  exact Nat.mod_eq_of_lt (by omega)

theorem add_lt : add w a b < 2 ^ w := Nat.mod_lt _ (Nat.two_pow_pos w)

theorem sub_lt : sub w a b < 2 ^ w := Nat.mod_lt _ (Nat.two_pow_pos w)

/-- A value below `2 ^ (w - 1)` is its own signed reading. -/
theorem signed_of_lt (hw : 1 ≤ w) (hx : x < 2 ^ (w - 1)) : signed w x = x := by
  have hpow : (2 : ℤ) ^ w = 2 * 2 ^ (w - 1) := by
    rw [← pow_succ']
    congr 1
    omega
  have hx' : (x : ℤ) < 2 ^ (w - 1) := by exact_mod_cast hx
  have hpos : (0 : ℤ) < 2 ^ (w - 1) := by positivity
  unfold signed
  rw [Int.bmod_def, Nat.cast_pow, Nat.cast_ofNat, hpow,
    Int.emod_eq_of_lt (by positivity) (by omega), if_pos (by omega)]

/-- A value from `2 ^ (w - 1)` to `2 ^ w` reads as itself less `2 ^ w`. -/
theorem signed_of_ge (hw : 1 ≤ w) (hlo : 2 ^ (w - 1) ≤ x) (hx : x < 2 ^ w) :
    signed w x = x - 2 ^ w := by
  have hpow : (2 : ℤ) ^ w = 2 * 2 ^ (w - 1) := by
    rw [← pow_succ']
    congr 1
    omega
  have hlo' : (2 : ℤ) ^ (w - 1) ≤ x := by exact_mod_cast hlo
  have hx' : (x : ℤ) < 2 ^ w := by exact_mod_cast hx
  unfold signed
  rw [Int.bmod_def, Nat.cast_pow, Nat.cast_ofNat, Int.emod_eq_of_lt (by positivity) hx',
    if_neg (by omega)]

theorem ofInt_natCast_of_lt (hx : x < 2 ^ w) : ofInt w x = x := by
  unfold ofInt
  rw [Int.emod_eq_of_lt (by positivity) (by exact_mod_cast hx), Int.toNat_natCast]

/-- A value of `[0, 2 ^ w)`, stored into a signed word: itself below
    `2 ^ (w - 1)`, and `2 ^ w` less from there on. -/
theorem signed_ofInt_of_nonneg {z : ℤ} (hw : 1 ≤ w) (hz : 0 ≤ z) (hz' : z < 2 ^ w) :
    signed w (ofInt w z) = if z < 2 ^ (w - 1) then z else z - 2 ^ w := by
  obtain ⟨x, rfl⟩ : ∃ x : ℕ, z = x := ⟨z.toNat, (Int.toNat_of_nonneg hz).symm⟩
  have hx : x < 2 ^ w := by exact_mod_cast hz'
  rw [ofInt_natCast_of_lt hx]
  split_ifs with hlt
  · exact signed_of_lt hw (by exact_mod_cast hlt)
  · exact signed_of_ge hw (by exact_mod_cast not_lt.1 hlt) hx

/-- Narrowing to a signed word and widening back adds `2 ^ v - 2 ^ w` to the
    values from `2 ^ (w - 1)` to `2 ^ w`. -/
theorem ofInt_signed_of_ge {v : ℕ} (hw : 1 ≤ w) (hwv : w ≤ v) (hlo : 2 ^ (w - 1) ≤ x)
    (hx : x < 2 ^ w) : ofInt v (signed w x) = 2 ^ v - 2 ^ w + x := by
  have hle : 2 ^ w ≤ 2 ^ v := Nat.pow_le_pow_right (by decide) hwv
  have hpos : 0 < 2 ^ w := Nat.two_pow_pos w
  rw [signed_of_ge hw hlo hx]
  unfold ofInt
  have hsub : ((2 ^ v - 2 ^ w + x : ℕ) : ℤ) = 2 ^ v - 2 ^ w + x := by
    rw [Nat.cast_add, Nat.cast_sub hle]
    push_cast
    omega
  have hshift : (x : ℤ) - 2 ^ w = ((2 ^ v - 2 ^ w + x : ℕ) : ℤ) - 2 ^ v := by
    rw [hsub]
    omega
  have hcast : ((x : ℤ) - 2 ^ w) % 2 ^ v = ((2 ^ v - 2 ^ w + x : ℕ) : ℤ) := by
    rw [hshift, Int.sub_emod_right]
    exact Int.emod_eq_of_lt (by positivity) (by exact_mod_cast (show 2 ^ v - 2 ^ w + x < 2 ^ v by omega))
  rw [hcast, Int.toNat_natCast]

/-- `x & ~(2 ^ j - 1)` rounds `x` down to a multiple of `2 ^ j`. -/
theorem and_complement {j : ℕ} (hj : j ≤ w) (hx : x < 2 ^ w) :
    x &&& complement w (2 ^ j - 1) = x / 2 ^ j * 2 ^ j := by
  -- the mask is the bits from `j` to `w`
  have hm : complement w (2 ^ j - 1) = (2 ^ (w - j) - 1) * 2 ^ j := by
    have hw : 2 ^ w = 2 ^ (w - j) * 2 ^ j := by rw [← Nat.pow_add, Nat.sub_add_cancel hj]
    have : 1 ≤ 2 ^ j := Nat.one_le_two_pow
    rw [complement, hw, Nat.sub_one_mul]
    omega
  rw [hm]
  apply Nat.eq_of_testBit_eq
  intro i
  simp only [Nat.testBit_and, Nat.testBit_mul_two_pow, Nat.testBit_two_pow_sub_one,
    Nat.testBit_div_two_pow]
  by_cases hji : j ≤ i
  · by_cases hi : i < w
    · simp [hji, Nat.sub_add_cancel hji]
      omega
    · have : x.testBit i = false :=
        Nat.testBit_eq_false_of_lt (lt_of_lt_of_le hx (Nat.pow_le_pow_right (by decide) (by omega)))
      simp [hji, this, Nat.sub_add_cancel hji]
  · simp [hji]

/-- `x | (2 ^ j - 1)` sets the low `j` bits: the last value of the aligned
    run of `2 ^ j` that holds `x`. -/
theorem or_two_pow_sub_one (x j : ℕ) : x ||| (2 ^ j - 1) = x / 2 ^ j * 2 ^ j + (2 ^ j - 1) := by
  rw [← Nat.shiftRight_eq_div_pow, ← Nat.shiftLeft_eq,
    Nat.shiftLeft_add_eq_or_of_lt (Nat.sub_lt (Nat.two_pow_pos j) Nat.one_pos)]
  apply Nat.eq_of_testBit_eq
  intro i
  simp only [Nat.testBit_lor, Nat.testBit_shiftLeft, Nat.testBit_shiftRight,
    Nat.testBit_two_pow_sub_one]
  by_cases hi : i < j
  · simp [hi]
  · rw [Nat.add_sub_cancel' (by omega)]
    simp [hi, show j ≤ i by omega]

/-- The bits of `~x` are those of `x` flipped, below `w`. -/
theorem testBit_complement (hx : x < 2 ^ w) (i : ℕ) :
    (complement w x).testBit i = (decide (i < w) && !x.testBit i) := by
  rw [complement, Nat.sub_sub, Nat.add_comm]
  exact Nat.testBit_two_pow_sub_succ hx i

theorem add_add (a b c : ℕ) : add w (add w a b) c = add w a (b + c) := by
  unfold add
  rw [Nat.mod_add_mod, Nat.add_assoc]

/-- A difference of words is the amount added. -/
theorem sub_add_self (a b : ℕ) : sub w (add w a b) a = b % 2 ^ w := by
  unfold sub add
  have hw : 0 < 2 ^ w := Nat.two_pow_pos w
  have := Nat.mod_add_div a (2 ^ w)
  have := Nat.mod_lt a hw
  rw [Nat.mod_add_mod, show a + b + (2 ^ w - a % 2 ^ w) = b + 2 ^ w * (a / 2 ^ w + 1) by
    rw [Nat.mul_add, Nat.mul_one]
    omega, Nat.add_mul_mod_self_left]

/-- Below zero, a difference wraps around to `2 ^ w` less the shortfall. -/
theorem sub_of_lt (hab : a < b) (hb : b < 2 ^ w) : sub w a b = 2 ^ w - (b - a) := by
  unfold sub
  rw [Nat.mod_eq_of_lt hb, Nat.mod_eq_of_lt (by omega)]
  omega

/-- Adding back what was subtracted gives the word back. -/
theorem add_sub_cancel (a b : ℕ) : add w (sub w a b) b = a % 2 ^ w := by
  unfold add sub
  have hw : 0 < 2 ^ w := Nat.two_pow_pos w
  have := Nat.mod_add_div b (2 ^ w)
  have := Nat.mod_lt b hw
  rw [Nat.mod_add_mod, show a + (2 ^ w - b % 2 ^ w) + b = a + 2 ^ w * (b / 2 ^ w + 1) by
    rw [Nat.mul_add, Nat.mul_one]
    omega, Nat.add_mul_mod_self_left]

/-- Adding `2 ^ j - 1` and masking off the low `j` bits rounds up to a
    multiple of `2 ^ j` (C's `(x + align - 1) & ~(align - 1)`). -/
theorem add_sub_one_and_complement {j : ℕ} (hj : j < w) (hx : x + 2 ^ j - 1 < 2 ^ w) :
    add w x (sub w (2 ^ j) 1) &&& complement w (sub w (2 ^ j) 1) =
      (x + 2 ^ j - 1) / 2 ^ j * 2 ^ j := by
  have hlt : 2 ^ j < 2 ^ w := Nat.pow_lt_pow_right (by decide) hj
  have h1 : 1 ≤ 2 ^ j := Nat.one_le_two_pow
  rw [sub_of_le h1 hlt, add_of_lt (by omega), Nat.add_sub_assoc h1, and_complement hj.le (by omega)]

/-- The signed reading takes only the low `w` bits. -/
theorem signed_mod (x : ℕ) : signed w (x % 2 ^ w) = signed w x := by
  unfold signed
  rw [Int.natCast_mod, Int.emod_bmod]

/-- A word whose low `w` bits have the top one set reads as negative. -/
theorem signed_neg_of_le_mod (hw : 1 ≤ w) (h : 2 ^ (w - 1) ≤ x % 2 ^ w) : signed w x < 0 := by
  rw [← signed_mod, signed_of_ge hw h (Nat.mod_lt _ (Nat.two_pow_pos w))]
  have : ((x % 2 ^ w : ℕ) : ℤ) < 2 ^ w := by exact_mod_cast Nat.mod_lt _ (Nat.two_pow_pos w)
  omega

/-! ## Rounding to a power of two -/

/-- `x` and what it lacks to a multiple of `a` make a multiple of `a`. -/
theorem dvd_add_sub_mod {a : ℕ} (x : ℕ) (ha : 0 < a) : a ∣ x + (a - x % a) := by
  have hdiv := Nat.div_add_mod x a
  have hmod := Nat.mod_lt x ha
  refine ⟨x / a + 1, ?_⟩
  rw [Nat.mul_succ]
  omega

/-- `x` rounded up to a multiple of `a`, `(x + a - 1) / a * a`, is at least
    `x`. -/
theorem le_roundUp (x : ℕ) {a : ℕ} (ha : 0 < a) : x ≤ (x + a - 1) / a * a := by
  have hdiv := Nat.div_add_mod (x + a - 1) a
  have hmod := Nat.mod_lt (x + a - 1) ha
  rw [Nat.mul_comm] at hdiv
  omega

/-- The larger of two powers of two is one, which both divide. -/
theorem max_two_pow {i j : ℕ} : ∃ k, (if 2 ^ i < 2 ^ j then 2 ^ j else 2 ^ i) = 2 ^ k ∧ 2 ^ i ∣ 2 ^ k ∧
    2 ^ j ∣ 2 ^ k ∧ k ≤ max i j := by
  split_ifs with h
  · have hij : i ≤ j := (Nat.pow_lt_pow_iff_right (by decide)).mp h |>.le
    exact ⟨j, rfl, Nat.pow_dvd_pow 2 hij, dvd_rfl, le_max_right i j⟩
  · have hji : j ≤ i := Nat.le_of_not_lt fun hlt => h (Nat.pow_lt_pow_right (by decide) hlt)
    exact ⟨i, rfl, dvd_rfl, Nat.pow_dvd_pow 2 hji, le_max_left i j⟩

/-- The remainder of a multiple of `p` by a multiple of `p` is one: nonzero,
    it is at least `p`. -/
theorem le_mod_of_dvd {p a x : ℕ} (hpa : p ∣ a) (hpx : p ∣ x) (hx : x % a ≠ 0) :
    p ≤ x % a :=
  Nat.le_of_dvd (Nat.pos_of_ne_zero hx) ((Nat.dvd_mod_iff hpa).mpr hpx)

end Word
