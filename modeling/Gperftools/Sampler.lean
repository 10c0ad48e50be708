import Gperftools.Lib.Word
import Mathlib.Logic.Function.Iterate

/-!
# The sampler's fast path

`Sampler` (sampler.h, sampler.cc) picks the allocations that the heap
profiler samples: `bytes_until_sample_` counts down the bytes allocated, and
the allocation that takes it below zero is sampled, after which
`PickNextSamplingPoint` draws the next count. `malloc_fast_path` (tcmalloc.cc)
calls `TryRecordAllocationFast(k)`, which subtracts `k` as a signed value and
undoes the subtraction when the count goes negative; only then does
`do_malloc` call `RecordAllocation(k)` through `ThreadCache::SampleAllocation`,
which compares the count, cast to `size_t`, with `k`.

`bytes_until_sample_` is kept as its 64-bit pattern, negative from `2 ^ 63` on;
`rnd_` is a `UInt64`. The draw of `PickNextSamplingPoint` takes a logarithm in
floating point: its result, from the 32-bit value of `rnd_ >> 22` it reads, is
`Env.interval`.

* `tryRecordAllocationFast_eq`: on a non-negative count and `k < 2 ^ 63`, the
  fast path fails exactly when `RecordAllocation` takes its slow branch, and
  then leaves the sampler as it was;
* `recordAllocation_nonneg`: when every draw is in `[0, 2 ^ 63)`,
  `RecordAllocation` keeps the count non-negative;
* `fastPath_refines`: every sequence of allocations recorded through the fast
  path makes the same decisions and ends in the same sampler as through
  `RecordAllocation` alone.
-/

namespace Gperftools

/-- `Sampler`: `bytes_until_sample_` (its 64-bit pattern), `rnd_` and
    `initialized_`. -/
structure Sampler where
  bytesUntilSample : ℕ
  rnd : UInt64
  initialized : Bool
deriving DecidableEq

namespace Sampler

/-- What a sampler reads from outside: the flag `tcmalloc_sample_parameter`
    (once `Init` has read `TCMALLOC_SAMPLE_PARAMETER`), the address of the
    sampler, which `RecordAllocationSlow` passes to `Init` as the seed, and the
    floating-point part of `PickNextSamplingPoint`: the `ssize_t` that
    `static_cast<ssize_t>(std::min<double>(interval, kMaxSSize))` gives for the
    value `q - 1` it reads. -/
structure Env where
  sampleParameter : ℤ
  self : UInt64
  interval : ℕ → ℤ

/-- `NextRandom(rnd)`: the `lrand64` generator. -/
def nextRandom (rnd : UInt64) : UInt64 := ((0x5DEECE66D : UInt64) * rnd + (0xB : UInt64)) &&& ~~~((~~~(0 : UInt64)) <<< 48)

variable (env : Env)

/-- `PickNextSamplingPoint()`: the sampler with its new `rnd_`, and the count
    drawn. -/
def pickNextSamplingPoint (s : Sampler) : Sampler × ℤ :=
  if env.sampleParameter ≤ 0 then (s, 16 * 2 ^ 20)
  else
    let rnd := nextRandom s.rnd
    ({ s with rnd := rnd }, env.interval ((rnd >>> 22).toNat % 2 ^ 32))

/-- `bytes_until_sample_ = PickNextSamplingPoint()`. -/
def resample (s : Sampler) : Sampler :=
  let (s, next) := pickNextSamplingPoint env s
  { s with bytesUntilSample := Word.ofInt 64 next }

/-- `Init(seed)`: `rnd_` from the seed, stepped 20 times, then the first
    count. -/
def init (s : Sampler) (seed : UInt64) : Sampler := resample env { s with rnd := nextRandom^[20] seed }

/-- `RecordAllocationSlow(k)`. -/
def recordAllocationSlow (s : Sampler) (k : ℕ) : Bool × Sampler :=
  if s.initialized then (decide (env.sampleParameter ≤ 0), resample env s)
  else
    let s := init env { s with initialized := true } env.self
    if k ≤ s.bytesUntilSample then (true, { s with bytesUntilSample := Word.sub 64 s.bytesUntilSample k })
    else (decide (env.sampleParameter ≤ 0), resample env s)

/-- `RecordAllocation(k)`: `true` when the allocation is not sampled. -/
def recordAllocation (s : Sampler) (k : ℕ) : Bool × Sampler :=
  -- `static_cast<size_t>(bytes_until_sample_) < k`
  if s.bytesUntilSample < k then recordAllocationSlow env s k
  else (true, { s with bytesUntilSample := Word.sub 64 s.bytesUntilSample k })

/-- `TryRecordAllocationFast(k)`. -/
def tryRecordAllocationFast (s : Sampler) (k : ℕ) : Bool × Sampler :=
  -- `bytes_until_sample_ -= static_cast<ssize_t>(k)`
  let b := Word.sub 64 s.bytesUntilSample k
  -- negative: `*ptr += k` undoes the subtraction
  if 2 ^ 63 ≤ b then (false, { s with bytesUntilSample := Word.add 64 b k })
  else (true, { s with bytesUntilSample := b })

/-- An allocation of `k` bytes as `malloc_fast_path` and `do_malloc` record
    it: `TryRecordAllocationFast(k)`, and `RecordAllocation(k)` when it fails. -/
def recordFastThenSlow (s : Sampler) (k : ℕ) : Bool × Sampler :=
  match tryRecordAllocationFast s k with
  | (true, s) => (true, s)
  | (false, s) => recordAllocation env s k

/-- The decisions made on a sequence of allocations, and the sampler after
    them. -/
def run (step : Sampler → ℕ → Bool × Sampler) : Sampler → List ℕ → List Bool × Sampler
  | s, [] => ([], s)
  | s, k :: ks =>
    let (decision, s) := step s k
    let (decisions, s) := run step s ks
    (decision :: decisions, s)

/-! ## The fast path -/

section Fast

variable {s : Sampler} {k : ℕ} (hs : s.bytesUntilSample < 2 ^ 63) (hk : k < 2 ^ 63)
include hs hk

/-- On a non-negative count and `k < 2 ^ 63`, the signed subtraction of the
    fast path goes negative exactly when the count is below `k`, and undoing
    it gives the count back. -/
theorem tryRecordAllocationFast_eq :
    tryRecordAllocationFast s k =
      if s.bytesUntilSample < k then (false, s)
      else (true, { s with bytesUntilSample := s.bytesUntilSample - k }) := by
  unfold tryRecordAllocationFast
  by_cases hlt : s.bytesUntilSample < k
  · -- the difference wraps to `2 ^ 64 - (k - count)`, a negative `ssize_t`
    rw [Word.sub_of_lt hlt (by omega), if_pos (by omega), if_pos hlt, ← Word.sub_of_lt hlt (by omega),
      Word.add_sub_cancel, Nat.mod_eq_of_lt (by omega)]
  · rw [Word.sub_of_le (by omega) (by omega), if_neg (by omega), if_neg hlt]

theorem tryRecordAllocationFast_nonneg : (tryRecordAllocationFast s k).2.bytesUntilSample < 2 ^ 63 := by
  rw [tryRecordAllocationFast_eq hs hk]
  split_ifs
  · exact hs
  · dsimp only
    omega

/-- Through the fast path, an allocation is recorded as `RecordAllocation`
    records it. -/
theorem recordFastThenSlow_eq : recordFastThenSlow env s k = recordAllocation env s k := by
  unfold recordFastThenSlow
  rw [tryRecordAllocationFast_eq hs hk]
  by_cases hlt : s.bytesUntilSample < k
  · rw [if_pos hlt]
  · rw [if_neg hlt, recordAllocation, if_neg hlt, Word.sub_of_le (by omega) (by omega)]

end Fast

/-! ## The count stays non-negative -/

section Draws

variable {env} (henv : ∀ x, 0 ≤ env.interval x ∧ env.interval x < 2 ^ 63)
include henv

/-- Every draw is a non-negative count. -/
theorem resample_nonneg (s : Sampler) : (resample env s).bytesUntilSample < 2 ^ 63 := by
  unfold resample pickNextSamplingPoint
  split_ifs
  · dsimp only
    decide
  · obtain ⟨hlo, hhi⟩ := henv ((nextRandom s.rnd >>> 22).toNat % 2 ^ 32)
    dsimp only
    rw [← Int.toNat_of_nonneg hlo, Word.ofInt_natCast_of_lt (by omega)]
    omega

/-- `RecordAllocation` keeps the count non-negative. -/
theorem recordAllocation_nonneg {s : Sampler} (hs : s.bytesUntilSample < 2 ^ 63) (k : ℕ) :
    (recordAllocation env s k).2.bytesUntilSample < 2 ^ 63 := by
  unfold recordAllocation
  split_ifs with hlt
  · unfold recordAllocationSlow
    split_ifs with hinit
    · exact resample_nonneg henv s
    dsimp only
    split_ifs with hle
    · -- the first count, less `k`
      have hfirst : (init env { s with initialized := true } env.self).bytesUntilSample < 2 ^ 63 :=
        resample_nonneg henv _
      dsimp only
      rw [Word.sub_of_le hle (by omega)]
      omega
    · exact resample_nonneg henv _
  · dsimp only
    rw [Word.sub_of_le (by omega) (by omega)]
    omega

/-- Sampler fast path refines the slow path: when every draw is in
    `[0, 2 ^ 63)`, from a non-negative count, every sequence of allocations of
    less than `2 ^ 63` bytes makes the same decisions and ends in the same
    sampler through the fast path as through `RecordAllocation` alone, with
    the count non-negative; and on every such sampler and allocation, the fast
    path fails exactly when `RecordAllocation` takes its slow branch, leaves
    the sampler as it was when it fails, and keeps the count non-negative. -/
theorem fastPath_refines (s : Sampler) (hs : s.bytesUntilSample < 2 ^ 63) (ks : List ℕ)
    (hks : ∀ k ∈ ks, k < 2 ^ 63) :
    run (recordFastThenSlow env) s ks = run (recordAllocation env) s ks ∧
      (run (recordAllocation env) s ks).2.bytesUntilSample < 2 ^ 63 ∧
      ∀ (s : Sampler) (k : ℕ), s.bytesUntilSample < 2 ^ 63 → k < 2 ^ 63 →
        ((tryRecordAllocationFast s k).1 = false ↔ s.bytesUntilSample < k) ∧
        ((tryRecordAllocationFast s k).1 = false → (tryRecordAllocationFast s k).2 = s) ∧
        (tryRecordAllocationFast s k).2.bytesUntilSample < 2 ^ 63 ∧
        (recordAllocation env s k).2.bytesUntilSample < 2 ^ 63 := by
  refine ⟨?_, ?_, fun s' k hs' hk => ⟨?_, ?_, tryRecordAllocationFast_nonneg hs' hk,
    recordAllocation_nonneg henv hs' k⟩⟩
  · -- by induction on the allocations, each recorded alike from a non-negative count
    induction ks generalizing s with
    | nil => rfl
    | cons k ks ih =>
      have hk := hks k List.mem_cons_self
      simp only [run, recordFastThenSlow_eq env hs hk,
        ih _ (recordAllocation_nonneg henv hs k) fun k' hk' => hks k' (List.mem_cons_of_mem _ hk')]
  · induction ks generalizing s with
    | nil => exact hs
    | cons k ks ih =>
      exact ih _ (recordAllocation_nonneg henv hs k) fun k' hk' => hks k' (List.mem_cons_of_mem _ hk')
  · rw [tryRecordAllocationFast_eq hs' hk]
    split_ifs with hlt
    · exact ⟨fun _ => hlt, fun _ => rfl⟩
    · simp [hlt]
  · rw [tryRecordAllocationFast_eq hs' hk]
    split_ifs
    · exact fun _ => rfl
    · simp

end Draws

theorem fastPath_refines_three_allocations :
    (∀ x, 0 ≤ ((⟨524288, 4096, fun x => ((x % 2 ^ 26 : ℕ) : ℤ)⟩ : Env).interval x) ∧
        (⟨524288, 4096, fun x => ((x % 2 ^ 26 : ℕ) : ℤ)⟩ : Env).interval x < 2 ^ 63) ∧
      (⟨100, 0, false⟩ : Sampler).bytesUntilSample < 2 ^ 63 ∧ (∀ k ∈ [64, 32, 4096], k < 2 ^ 63) ∧
      run (recordFastThenSlow ⟨524288, 4096, fun x => ((x % 2 ^ 26 : ℕ) : ℤ)⟩) ⟨100, 0, false⟩
          [64, 32, 4096] =
        run (recordAllocation ⟨524288, 4096, fun x => ((x % 2 ^ 26 : ℕ) : ℤ)⟩) ⟨100, 0, false⟩
          [64, 32, 4096] ∧
      (run (recordAllocation ⟨524288, 4096, fun x => ((x % 2 ^ 26 : ℕ) : ℤ)⟩) ⟨100, 0, false⟩
          [64, 32, 4096]).2.bytesUntilSample < 2 ^ 63 ∧
      ∀ (s : Sampler) (k : ℕ), s.bytesUntilSample < 2 ^ 63 → k < 2 ^ 63 →
        ((tryRecordAllocationFast s k).1 = false ↔ s.bytesUntilSample < k) ∧
        ((tryRecordAllocationFast s k).1 = false → (tryRecordAllocationFast s k).2 = s) ∧
        (tryRecordAllocationFast s k).2.bytesUntilSample < 2 ^ 63 ∧
        ((recordAllocation ⟨524288, 4096, fun x => ((x % 2 ^ 26 : ℕ) : ℤ)⟩ s k).2.bytesUntilSample <
          2 ^ 63) := by
  have henv : ∀ x, 0 ≤ ((⟨524288, 4096, fun x => ((x % 2 ^ 26 : ℕ) : ℤ)⟩ : Env).interval x) ∧
      (⟨524288, 4096, fun x => ((x % 2 ^ 26 : ℕ) : ℤ)⟩ : Env).interval x < 2 ^ 63 := fun x => by
    have := Nat.mod_lt x (show 0 < 2 ^ 26 by decide)
    dsimp only
    omega
  exact ⟨henv, by decide, by decide, fastPath_refines henv _ (by decide) _ (by decide)⟩

end Sampler

end Gperftools
