import Mathlib.Data.List.ReduceOption
import Gperftools.SystemAlloc

/-!
# The system allocators hand out fresh memory

What `TCMalloc_SystemAlloc` guarantees its callers, for every answer of the
system that hands out memory below `2 ^ kAddressBits`, mappings starting on
a page (`Env.Sane`):

* each call leaves the log as it was but for the memory it obtained and the
  ranges it gave back (`Logs`); the block it returns lies in the memory it
  obtained, and so does every range it gives back, which misses the block
  when what it obtained does not overlap (`Within`);
* `sbrkAlloc_spec`, `mmapAlloc_spec`: each child returns a block aligned as
  asked, of at least the size asked; `systemAlloc_spec` composes them;
* `run_fresh`: over every sequence of calls with power-of-two alignments,
  nothing crashes, each block is aligned, as large as asked and ends below
  `2 ^ kAddressBits`, and `TCMalloc_SystemTaken` is the sum of their sizes.
  When the system never hands out the same memory twice, no two blocks
  overlap and no `munmap` touches a block.
-/

namespace Gperftools

namespace SystemAlloc

open Intervals

/-- What the proofs assume of the system: pages and `MemoryAligner` are
    powers of two no larger than the address space, and the memory `sbrk`
    and `mmap` hand out lies below `2 ^ kAddressBits`, a mapping starting on
    a page. -/
structure Env.Sane (env : Env) : Prop where
  pagesize : ∃ j ≤ kAddressBits, env.pagesize = 2 ^ j
  memoryAligner : ∃ j ≤ kAddressBits, env.memoryAligner = 2 ^ j
  sbrk_le : ∀ k n r, env.sbrk k n = some r → r + n ≤ 2 ^ kAddressBits
  mmap_le : ∀ k n h a, env.mmap k n h = some a → a + n ≤ 2 ^ kAddressBits
  mmap_page : ∀ k n h a, env.mmap k n h = some a → env.pagesize ∣ a

/-! ## The log of a call -/

/-- `st'` is `st` with the memory `new` handed out and the ranges `unmaps`
    given back, and nothing added to `TCMalloc_SystemTaken`. -/
structure Logs (st st' : SysAlloc) (new unmaps : List (ℕ × ℕ)) : Prop where
  given : st'.given = st.given ++ new
  unmapped : st'.unmapped = st.unmapped ++ unmaps
  taken : st'.systemTaken = st.systemTaken

theorem Logs.of_eq {st st' : SysAlloc} (hg : st'.given = st.given) (hu : st'.unmapped = st.unmapped)
    (ht : st'.systemTaken = st.systemTaken) : Logs st st' [] [] :=
  ⟨by rw [hg, List.append_nil], by rw [hu, List.append_nil], ht⟩

theorem Logs.trans {st₁ st₂ st₃ : SysAlloc} {n₁ n₂ u₁ u₂ : List (ℕ × ℕ)} (h₁ : Logs st₁ st₂ n₁ u₁)
    (h₂ : Logs st₂ st₃ n₂ u₂) : Logs st₁ st₃ (n₁ ++ n₂) (u₁ ++ u₂) :=
  ⟨by rw [h₂.given, h₁.given, List.append_assoc], by rw [h₂.unmapped, h₁.unmapped, List.append_assoc],
    h₂.taken.trans h₁.taken⟩

/-- Where the ranges a call gives back lie: in the memory `new` it
    obtained. -/
def Inside (new unmaps : List (ℕ × ℕ)) : Prop := ∀ u ∈ unmaps, ∀ x, In x u → Covered new x

/-- Where a call's block, if not `nullptr`, and the ranges it gives back lie:
    in the memory `new` it obtained, the ranges apart from the block when the
    memory obtained does not overlap. -/
structure Within (new unmaps : List (ℕ × ℕ)) (b : ℕ × ℕ) : Prop where
  inside : Inside new unmaps
  block_in : b.1 ≠ 0 → ∀ x, In x b → Covered new x
  apart : b.1 ≠ 0 → new.Pairwise Apart → ∀ u ∈ unmaps, Apart u b

/-- What a block, if not `nullptr`, is asked to be: aligned, of at least
    `size` bytes, below `2 ^ kAddressBits`. -/
def Fits (alignment size : ℕ) (b : ℕ × ℕ) : Prop :=
  b.1 ≠ 0 → alignment ∣ b.1 ∧ size ≤ b.2 ∧ b.1 + b.2 ≤ 2 ^ kAddressBits

theorem inside_nil (new : List (ℕ × ℕ)) : Inside new [] := fun _ hu => absurd hu List.not_mem_nil

theorem Inside.append {n₁ n₂ u₁ u₂ : List (ℕ × ℕ)} (h₁ : Inside n₁ u₁) (h₂ : Inside n₂ u₂) :
    Inside (n₁ ++ n₂) (u₁ ++ u₂) := by
  intro u hu x hx
  rcases List.mem_append.mp hu with hu | hu
  · exact covered_append.mpr (.inl (h₁ u hu x hx))
  · exact covered_append.mpr (.inr (h₂ u hu x hx))

theorem within_null (new unmaps : List (ℕ × ℕ)) (n : ℕ) (h : Inside new unmaps) : Within new unmaps (0, n) :=
  ⟨h, fun h0 => absurd rfl h0, fun h0 => absurd rfl h0⟩

/-- What a call obtained and gave back before the memory of its block lies
    apart from the block when nothing obtained overlaps. -/
theorem Within.prefix {n₁ n₂ u₁ u₂ : List (ℕ × ℕ)} {b : ℕ × ℕ} (h₁ : Inside n₁ u₁) (h₂ : Within n₂ u₂ b) :
    Within (n₁ ++ n₂) (u₁ ++ u₂) b := by
  refine ⟨h₁.append h₂.inside, fun hb x hx => covered_append.mpr (.inr (h₂.block_in hb x hx)), ?_⟩
  intro hb hpair u hu
  rw [List.pairwise_append] at hpair
  rcases List.mem_append.mp hu with hu | hu
  · exact apart_of_covered_of_covered (h₁ u hu) (h₂.block_in hb) hpair.2.2
  · exact h₂.apart hb hpair.2.1 u hu

/-- The memory of `sbrk(increment)`, logged when the increment is positive. -/
def sbrkRegion (p increment : ℕ) : List (ℕ × ℕ) := if increment = 0 then [] else [(p, increment)]

theorem covered_sbrkRegion {p n x : ℕ} (hx : In x (p, n)) : Covered (sbrkRegion p n) x := by
  unfold sbrkRegion
  split_ifs with hn
  · unfold In at hx
    dsimp only at hx
    omega
  · exact ⟨(p, n), List.mem_singleton_self _, hx⟩

variable {env : Env} {st st' : SysAlloc}

theorem sbrkCall_none {n : ℕ} (h : sbrkCall env st n = (st', none)) : Logs st st' [] [] := by
  unfold sbrkCall at h
  split at h
  · split_ifs at h <;> cases h
  · cases h
    exact Logs.of_eq rfl rfl rfl

theorem sbrkCall_some {n p : ℕ} (h : sbrkCall env st n = (st', some p)) :
    env.sbrk st.sbrkCalls n = some p ∧ Logs st st' (sbrkRegion p n) [] := by
  unfold sbrkCall at h
  split at h
  · rename_i q hq
    split_ifs at h with hn <;> cases h
    · exact ⟨hq, by rw [sbrkRegion, if_pos hn]; exact Logs.of_eq rfl rfl rfl⟩
    · exact ⟨hq, ⟨by simp [sbrkRegion, hn], by simp, rfl⟩⟩
  · cases h

theorem mmapCall_none {n hint : ℕ} (h : mmapCall env st n hint = (st', none)) : Logs st st' [] [] := by
  unfold mmapCall at h
  split at h <;> cases h
  exact Logs.of_eq rfl rfl rfl

theorem mmapCall_some {n hint a : ℕ} (h : mmapCall env st n hint = (st', some a)) :
    env.mmap st.mmapCalls n hint = some a ∧ Logs st st' [(a, n)] [] := by
  unfold mmapCall at h
  split at h
  · rename_i q hq
    cases h
    exact ⟨hq, ⟨rfl, by simp, rfl⟩⟩
  · cases h

theorem logs_munmap (a n : ℕ) : Logs st (munmap st a n) [] [(a, n)] :=
  ⟨by simp [munmap], rfl, rfl⟩

theorem logs_munmap_if (c : Prop) [Decidable c] (a n : ℕ) :
    Logs st (if c then munmap st a n else st) [] (if c then [(a, n)] else []) := by
  split_ifs
  · exact logs_munmap a n
  · exact Logs.of_eq rfl rfl rfl

/-- A state that logs as `st'` does keeps its log. -/
theorem Logs.keep {st₀ : SysAlloc} {new unmaps : List (ℕ × ℕ)} (h : Logs st₀ st new unmaps)
    (hg : st'.given = st.given) (hu : st'.unmapped = st.unmapped) (ht : st'.systemTaken = st.systemTaken) :
    Logs st₀ st' new unmaps :=
  ⟨by rw [hg, h.given], by rw [hu, h.unmapped], by rw [ht, h.taken]⟩

theorem sbrkCall_logs {n : ℕ} {r : Option ℕ} (h : sbrkCall env st n = (st', r)) :
    ∃ new, Logs st st' new [] := by
  cases r with
  | none => exact ⟨[], sbrkCall_none h⟩
  | some p => exact ⟨_, (sbrkCall_some h).2⟩

theorem sbrkCall_zero {r : Option ℕ} (h : sbrkCall env st 0 = (st', r)) : Logs st st' [] [] := by
  cases r with
  | none => exact sbrkCall_none h
  | some p => simpa [sbrkRegion] using (sbrkCall_some h).2

/-- An address below `2 ^ kAddressBits` is far from wrapping a `uintptr_t`. -/
theorem lt_of_le_addressBits {x : ℕ} (h : x ≤ 2 ^ kAddressBits) : x < 2 ^ 63 := by
  unfold kAddressBits at h
  omega

/-! ## The children -/

section Children

variable {size alignment p actual : ℕ}

/-- `SbrkSysAllocator::Alloc`, for a power-of-two alignment and a request
    that cannot wrap: a block it returns lies in the memory `sbrk` handed out
    during the call, aligned, of at least `size` bytes. It never gives memory
    back. -/
theorem sbrkAlloc_spec (hsane : env.Sane) {j : ℕ} (ha : alignment = 2 ^ j) (hsize : size + alignment < 2 ^ 63)
    (h : sbrkAlloc env st size alignment = (st', p, actual)) :
    ∃ new, Logs st st' new [] ∧ (p ≠ 0 → (∀ x, In x (p, actual) → Covered new x) ∧ alignment ∣ p ∧
      size ≤ actual ∧ p + actual ≤ 2 ^ kAddressBits) := by
  have hapos : 0 < alignment := ha ▸ Nat.two_pow_pos j
  have hmask : ∀ x, x &&& (alignment - 1) = x % alignment := fun x => ha ▸ Nat.and_two_pow_sub_one_eq_mod x j
  -- the size rounded up to the alignment does not wrap
  have hle := Nat.div_mul_le_self (size + alignment - 1) alignment
  have hround : (size + alignment - 1) % 2 ^ 64 / alignment * alignment % 2 ^ 64 =
      (size + alignment - 1) / alignment * alignment := by
    rw [Nat.mod_eq_of_lt (show size + alignment - 1 < 2 ^ 64 by omega)]
    exact Nat.mod_eq_of_lt (by omega)
  have hge := Word.le_roundUp size hapos
  unfold sbrkAlloc at h
  split_ifs at h with hskip hneg
  · cases h
    exact ⟨[], Logs.of_eq rfl rfl rfl, fun h0 => absurd rfl h0⟩
  · cases h
    exact ⟨[], Logs.of_eq rfl rfl rfl, fun h0 => absurd rfl h0⟩
  rw [hround] at h
  generalize (size + alignment - 1) / alignment * alignment = size' at h hle hge
  rcases hc₀ : sbrkCall env st 0 with ⟨st₁, brk⟩
  rw [hc₀] at h
  have hl₀ := sbrkCall_zero hc₀
  dsimp only at h
  by_cases hwrap : (brk.getD (2 ^ 64 - 1) + size') % 2 ^ 64 < size'
  · rw [if_pos hwrap] at h
    simp only [Prod.mk.injEq] at h
    obtain ⟨rfl, rfl, rfl⟩ := h
    exact ⟨[], hl₀, fun h0 => absurd rfl h0⟩
  rw [if_neg hwrap] at h
  rcases hc₁ : sbrkCall env st₁ size' with ⟨st₂, _ | ptr⟩ <;>
    rw [hc₁] at h
  · dsimp only at h
    simp only [Prod.mk.injEq] at h
    obtain ⟨rfl, rfl, rfl⟩ := h
    exact ⟨[], hl₀.trans (sbrkCall_none hc₁), fun h0 => absurd rfl h0⟩
  obtain ⟨hsb₁, hl₁⟩ := sbrkCall_some hc₁
  have hend₁ := hsane.sbrk_le _ _ _ hsb₁
  have hlt₁ := lt_of_le_addressBits hend₁
  dsimp only at h
  rw [hmask] at h
  by_cases haligned : ptr % alignment = 0
  · -- the break was aligned: the block is the memory of `sbrk(size)`
    rw [if_pos haligned] at h
    simp only [Prod.mk.injEq] at h
    obtain ⟨rfl, rfl, rfl⟩ := h
    exact ⟨_, hl₀.trans hl₁, fun _ =>
      ⟨fun x hx => covered_sbrkRegion hx, Nat.dvd_of_mod_eq_zero haligned, hge, hend₁⟩⟩
  rw [if_neg haligned] at h
  have hmod := Nat.mod_lt ptr hapos
  rcases hc₂ : sbrkCall env st₂ (alignment - ptr % alignment) with ⟨st₃, r₂⟩
  rw [hc₂] at h
  dsimp only at h
  by_cases hcontig : r₂.getD (2 ^ 64 - 1) = (ptr + size') % 2 ^ 64
  · -- contiguous: the block straddles the two extensions of the break
    rw [if_pos hcontig] at h
    rw [Nat.mod_eq_of_lt (by omega)] at hcontig
    have hr₂ : r₂ = some (ptr + size') := by
      cases r₂ with
      | none =>
        simp only [Option.getD_none] at hcontig
        omega
      | some r => exact congrArg some hcontig
    subst hr₂
    obtain ⟨hsb₂, hl₂⟩ := sbrkCall_some hc₂
    have hend₂ := hsane.sbrk_le _ _ _ hsb₂
    have hlt₂ := lt_of_le_addressBits hend₂
    simp only [Prod.mk.injEq] at h
    obtain ⟨rfl, rfl, rfl⟩ := h
    refine ⟨_, (hl₀.trans hl₁).trans hl₂, fun _ => ⟨fun x hx => ?_, ?_, hge, ?_⟩⟩
    · rw [Nat.mod_eq_of_lt (by omega)] at hx
      unfold In at hx
      dsimp only at hx
      rw [List.nil_append, covered_append]
      by_cases hx' : x < ptr + size'
      · exact .inl (covered_sbrkRegion ⟨by omega, hx'⟩)
      · exact .inr (covered_sbrkRegion ⟨by omega, by omega⟩)
    · rw [Nat.mod_eq_of_lt (by omega)]
      exact Word.dvd_add_sub_mod ptr hapos
    · rw [Nat.mod_eq_of_lt (by omega)]
      omega
  -- not contiguous: align within `size + alignment - 1` bytes
  rw [if_neg hcontig] at h
  obtain ⟨new₂, hl₂⟩ := sbrkCall_logs hc₂
  rcases hc₃ : sbrkCall env st₃ ((size' + alignment - 1) % 2 ^ 64) with ⟨st₄, _ | ptr₂⟩ <;>
    rw [hc₃] at h
  · dsimp only at h
    simp only [Prod.mk.injEq] at h
    obtain ⟨rfl, rfl, rfl⟩ := h
    exact ⟨_, ((hl₀.trans hl₁).trans hl₂).trans (sbrkCall_none hc₃), fun h0 => absurd rfl h0⟩
  obtain ⟨hsb₃, hl₃⟩ := sbrkCall_some hc₃
  have hend₃ := hsane.sbrk_le _ _ _ hsb₃
  rw [Nat.mod_eq_of_lt (by omega)] at hend₃ hl₃
  have hlt₃ := lt_of_le_addressBits hend₃
  have hmod₂ := Nat.mod_lt ptr₂ hapos
  dsimp only at h
  rw [hmask] at h
  simp only [Prod.mk.injEq] at h
  obtain ⟨rfl, hp, rfl⟩ := h
  refine ⟨_, ((hl₀.trans hl₁).trans hl₂).trans hl₃, fun _ => ?_⟩
  by_cases hoff : ptr₂ % alignment ≠ 0
  · rw [if_pos hoff, Nat.mod_eq_of_lt (by omega)] at hp
    subst hp
    refine ⟨fun x hx => ?_, Word.dvd_add_sub_mod ptr₂ hapos, hge, by omega⟩
    unfold In at hx
    dsimp only at hx
    exact covered_append.mpr (.inr (covered_sbrkRegion ⟨by omega, by omega⟩))
  · rw [if_neg hoff] at hp
    subst hp
    refine ⟨fun x hx => ?_, Nat.dvd_of_mod_eq_zero (not_not.mp hoff), hge, by omega⟩
    unfold In at hx
    dsimp only at hx
    exact covered_append.mpr (.inr (covered_sbrkRegion ⟨by omega, by omega⟩))

/-- The attempt at `hint_` logs one mapping: given back when it is not
    aligned, else the block it returns. -/
theorem mmapFromHint_spec (hsane : env.Sane) {j : ℕ} (ha : alignment = 2 ^ j) {r : Option ℕ}
    (h : mmapFromHint env st size alignment = (st', r)) :
    ∃ new unmaps, Logs st st' new unmaps ∧ Inside new unmaps ∧
      ∀ a, r = some a → unmaps = [] ∧ (∀ x, In x (a, size) → Covered new x) ∧ alignment ∣ a ∧
        a + size ≤ 2 ^ kAddressBits := by
  have hmask : ∀ x, x &&& (alignment - 1) = x % alignment := fun x => ha ▸ Nat.and_two_pow_sub_one_eq_mod x j
  unfold mmapFromHint at h
  by_cases hhint : st.hint ≠ 0 ∧ size < (st.hint + size) % 2 ^ 64 ∧ st.hint &&& (alignment - 1) = 0
  swap
  · rw [if_neg hhint] at h
    simp only [Prod.mk.injEq] at h
    obtain ⟨rfl, rfl⟩ := h
    exact ⟨[], [], Logs.of_eq rfl rfl rfl, inside_nil [], fun _ h => by cases h⟩
  rw [if_pos hhint] at h
  rcases hc : mmapCall env st size st.hint with ⟨st₁, _ | a⟩ <;> rw [hc] at h
  · dsimp only at h
    simp only [Prod.mk.injEq] at h
    obtain ⟨rfl, rfl⟩ := h
    exact ⟨[], [], mmapCall_none hc, inside_nil [], fun _ h => by cases h⟩
  obtain ⟨hmm, hl⟩ := mmapCall_some hc
  dsimp only at h
  rw [hmask] at h
  by_cases hal : a % alignment ≠ 0
  · -- a mapping elsewhere that is not aligned is given back whole
    rw [if_pos hal] at h
    simp only [Prod.mk.injEq] at h
    obtain ⟨rfl, rfl⟩ := h
    exact ⟨_, _, hl.trans (logs_munmap a size), fun u hu x hx => ⟨u, by simpa using hu, hx⟩,
      fun _ h => by cases h⟩
  rw [if_neg hal] at h
  simp only [Prod.mk.injEq] at h
  obtain ⟨rfl, rfl⟩ := h
  refine ⟨_, _, hl.keep rfl rfl rfl, inside_nil _, fun b hb => ?_⟩
  obtain rfl := Option.some.inj hb
  exact ⟨rfl, fun x hx => ⟨_, List.mem_singleton_self _, hx⟩, Nat.dvd_of_mod_eq_zero (not_not.mp hal),
    hsane.mmap_le _ _ _ _ hmm⟩

/-- Trimming a mapping of `n + extra` bytes to the `n` bytes at `adjust`:
    what is given back before and after the block lies in the mapping, apart
    from the block. -/
theorem within_trim (ptr n : ℕ) {extra adjust : ℕ} (hadj : adjust ≤ extra) :
    Within [(ptr, n + extra)]
      ((if 0 < adjust then [(ptr, adjust)] else []) ++
        (if adjust < extra then [(ptr + adjust + n, extra - adjust)] else [])) (ptr + adjust, n) := by
  have hcases : ∀ u ∈ (if 0 < adjust then [(ptr, adjust)] else []) ++
      (if adjust < extra then [(ptr + adjust + n, extra - adjust)] else []),
      u = (ptr, adjust) ∨ u = (ptr + adjust + n, extra - adjust) := by
    intro u hu
    simp only [List.mem_append, List.mem_ite_nil_right, List.mem_singleton] at hu
    rcases hu with ⟨_, rfl⟩ | ⟨_, rfl⟩
    · exact .inl rfl
    · exact .inr rfl
  refine ⟨fun u hu x hx => ⟨_, List.mem_singleton_self _, ?_⟩, fun _ x hx => ⟨_, List.mem_singleton_self _, ?_⟩,
    fun _ _ u hu x hx hb => ?_⟩
  · unfold In at hx ⊢
    rcases hcases u hu with rfl | rfl <;> (dsimp only at hx ⊢; omega)
  · unfold In at hx ⊢
    dsimp only at hx ⊢
    omega
  · unfold In at hx hb
    rcases hcases u hu with rfl | rfl <;> (dsimp only at hx hb; omega)

/-- `MmapSysAllocator::Alloc`, for a power-of-two alignment and a size
    within the address space: a block it returns lies in the memory `mmap`
    handed out during the call, aligned, of at least `size` bytes; what it
    unmaps it mapped during the call, and misses the block. -/
theorem mmapAlloc_spec (hsane : env.Sane) {j : ℕ} (ha : alignment = 2 ^ j) (hj : j ≤ kAddressBits)
    (hsize : size ≤ 2 ^ kAddressBits) (h : mmapAlloc env st size alignment = (st', p, actual)) :
    ∃ new unmaps, Logs st st' new unmaps ∧ Within new unmaps (p, actual) ∧ Fits alignment size (p, actual) := by
  obtain ⟨i, hi, hpage⟩ := hsane.pagesize
  have hmm_page := hsane.mmap_page
  rw [hpage] at hmm_page
  unfold mmapAlloc at h
  by_cases hskip : env.skipMmap = true
  · rw [if_pos hskip] at h
    simp only [Prod.mk.injEq] at h
    obtain ⟨rfl, rfl, rfl⟩ := h
    exact ⟨[], [], Logs.of_eq rfl rfl rfl, within_null _ _ _ (inside_nil _), fun h0 => absurd rfl h0⟩
  rw [if_neg hskip] at h
  dsimp only at h
  subst ha
  rw [hpage] at h
  -- the alignment raised to a page is a power of two `2 ^ k`
  obtain ⟨k, hk, hjk, hik, hkle⟩ := @Word.max_two_pow j i
  rw [hk] at h
  have hkpos : 0 < 2 ^ k := Nat.two_pow_pos k
  have hAk : 2 ^ k ≤ 2 ^ kAddressBits := Nat.pow_le_pow_right (by decide) (hkle.trans (max_le hj hi))
  -- `kAddressBits` is `48`
  have hAk' : 2 ^ k ≤ 2 ^ 48 := hAk
  have hsize' : size ≤ 2 ^ 48 := hsize
  have hmask : ∀ x, x &&& (2 ^ k - 1) = x % 2 ^ k := fun x => Nat.and_two_pow_sub_one_eq_mod x k
  have hle := Nat.div_mul_le_self (size + 2 ^ k - 1) (2 ^ k)
  have hround : (size + 2 ^ k - 1) % 2 ^ 64 / 2 ^ k * 2 ^ k % 2 ^ 64 = (size + 2 ^ k - 1) / 2 ^ k * 2 ^ k := by
    rw [Nat.mod_eq_of_lt (show size + 2 ^ k - 1 < 2 ^ 64 by omega)]
    exact Nat.mod_eq_of_lt (by omega)
  have hge := Word.le_roundUp size hkpos
  rw [hround, if_neg (Nat.not_lt.mpr hge)] at h
  generalize (size + 2 ^ k - 1) / 2 ^ k * 2 ^ k = size' at h hle hge
  -- the extra memory asked for is what the alignment exceeds a page by
  have hik' : 2 ^ i ≤ 2 ^ k := Nat.le_of_dvd hkpos hik
  generalize hE : (if 2 ^ i < 2 ^ k then 2 ^ k - 2 ^ i else 0) = extra at h
  have hextra : extra = 2 ^ k - 2 ^ i := by
    split_ifs at hE <;> omega
  rcases hh : mmapFromHint env st size' (2 ^ k) with ⟨st₁, _ | a⟩ <;> rw [hh] at h <;>
    obtain ⟨n₁, u₁, hl₁, hin₁, hsome⟩ := mmapFromHint_spec hsane rfl hh
  swap
  · -- the mapping at the hint is the block
    dsimp only at h
    simp only [Prod.mk.injEq] at h
    obtain ⟨rfl, rfl, rfl⟩ := h
    obtain ⟨rfl, hin, hdvd, hend⟩ := hsome _ rfl
    exact ⟨_, _, hl₁, ⟨hin₁, fun _ => hin, fun _ _ _ hu => absurd hu List.not_mem_nil⟩,
      fun _ => ⟨hjk.trans hdvd, hge, hend⟩⟩
  dsimp only at h
  rcases hc : mmapCall env st₁ ((size' + extra) % 2 ^ 64) 0 with ⟨st₂, _ | ptr⟩ <;> rw [hc] at h
  · dsimp only at h
    simp only [Prod.mk.injEq] at h
    obtain ⟨rfl, rfl, rfl⟩ := h
    exact ⟨_, _, hl₁.trans (mmapCall_none hc), within_null _ _ _ (hin₁.append (inside_nil [])),
      fun h0 => absurd rfl h0⟩
  obtain ⟨hmm, hl₂⟩ := mmapCall_some hc
  have hend : ptr + (size' + extra) % 2 ^ 64 ≤ 2 ^ 48 := hsane.mmap_le _ _ _ _ hmm
  have hpd := hmm_page _ _ _ _ hmm
  rw [Nat.mod_eq_of_lt (by omega)] at hend hl₂
  have hmod := Nat.mod_lt ptr hkpos
  dsimp only at h
  rw [hmask] at h
  -- the offset to the alignment is a multiple of a page, so within `extra`
  generalize hA : (if ptr % 2 ^ k ≠ 0 then 2 ^ k - ptr % 2 ^ k else 0) = adjust at h
  have hadj : adjust ≤ extra ∧ 2 ^ k ∣ ptr + adjust := by
    by_cases hoff : ptr % 2 ^ k ≠ 0
    · rw [if_pos hoff] at hA
      have hpage_le := Word.le_mod_of_dvd hik hpd hoff
      exact ⟨by omega, hA ▸ Word.dvd_add_sub_mod ptr hkpos⟩
    · rw [if_neg hoff] at hA
      exact ⟨by omega, by rw [← hA, Nat.add_zero]; exact Nat.dvd_of_mod_eq_zero (not_not.mp hoff)⟩
  rw [Nat.mod_eq_of_lt (show ptr + adjust + size' < 2 ^ 64 by omega),
    Nat.mod_eq_of_lt (show ptr + adjust < 2 ^ 64 by omega)] at h
  simp only [Prod.mk.injEq] at h
  obtain ⟨rfl, rfl, rfl⟩ := h
  have hrest := (hl₂.trans (logs_munmap_if (0 < adjust) ptr adjust)).trans
    (logs_munmap_if (adjust < extra) (ptr + adjust + size') (extra - adjust))
  refine ⟨_, _, hl₁.trans (hrest.keep rfl rfl rfl), Within.prefix hin₁ ?_,
    fun _ => ⟨hjk.trans hadj.2, hge, show ptr + adjust + size' ≤ 2 ^ 48 by omega⟩⟩
  simpa only [List.append_nil, List.nil_append] using within_trim ptr size' hadj.1

end Children

/-! ## `DefaultSysAllocator` and `TCMalloc_SystemAlloc` -/

/-- What a call of an allocator from `st` to `st'` that returned the block
    `b`, asked for `size` bytes aligned to `alignment`, guarantees. -/
def Allocates (st st' : SysAlloc) (alignment size : ℕ) (b : ℕ × ℕ) : Prop :=
  ∃ new unmaps, Logs st st' new unmaps ∧ Within new unmaps b ∧ Fits alignment size b

/-- What a call of `TCMalloc_SystemAlloc` from `st` to `st'` that returned
    `r` guarantees: it obtained the memory `new` and gave back the ranges
    `unmaps`, which lie in it; a block it returned is not `nullptr` and lies
    as an allocator's does; its size is added to `TCMalloc_SystemTaken`. -/
structure Returns (st st' : SysAlloc) (alignment size : ℕ) (r : Option (ℕ × ℕ)) (new unmaps : List (ℕ × ℕ)) :
    Prop where
  given : st'.given = st.given ++ new
  unmapped : st'.unmapped = st.unmapped ++ unmaps
  taken : st'.systemTaken = r.elim st.systemTaken fun b => Word.add 64 st.systemTaken b.2
  inside : Inside new unmaps
  block : ∀ b ∈ r, b.1 ≠ 0 ∧ Within new unmaps b ∧ Fits alignment size b

section Default

variable {size alignment p actual : ℕ}

theorem allocates_null (st : SysAlloc) (alignment size n : ℕ) : Allocates st st alignment size (0, n) :=
  ⟨[], [], Logs.of_eq rfl rfl rfl, within_null _ _ _ (inside_nil _), fun h0 => absurd rfl h0⟩

theorem Allocates.keep {st₀ : SysAlloc} {b : ℕ × ℕ} (h : Allocates st₀ st alignment size b)
    (hg : st'.given = st.given) (hu : st'.unmapped = st.unmapped) (ht : st'.systemTaken = st.systemTaken) :
    Allocates st₀ st' alignment size b :=
  let ⟨new, unmaps, hl, hw, hf⟩ := h
  ⟨new, unmaps, hl.keep hg hu ht, hw, hf⟩

/-- After an allocator returned `nullptr`, a call of the next one
    guarantees for both what it guarantees. -/
theorem Allocates.null_trans {st₀ : SysAlloc} {n : ℕ} {b : ℕ × ℕ} (h₁ : Allocates st₀ st alignment size (0, n))
    (h₂ : Allocates st st' alignment size b) : Allocates st₀ st' alignment size b :=
  let ⟨_, _, hl₁, hw₁, _⟩ := h₁
  let ⟨_, _, hl₂, hw₂, hf₂⟩ := h₂
  ⟨_, _, hl₁.trans hl₂, Within.prefix hw₁.inside hw₂, hf₂⟩

/-- `CheckAddressBits` passes on the last byte of a block that is not
    `nullptr` and ends below `2 ^ kAddressBits`. -/
theorem checkAddressBits_last (hp : p ≠ 0) (hend : p + actual ≤ 2 ^ kAddressBits) :
    Word.sub 64 (Word.add 64 p actual) 1 >>> kAddressBits = 0 := by
  have hend' : p + actual ≤ 2 ^ 48 := hend
  rw [Word.add_of_lt (by omega), Word.sub_of_le (by omega) (by omega), Nat.shiftRight_eq_div_pow]
  exact Nat.div_eq_of_lt (by unfold kAddressBits; omega)

variable (hsane : env.Sane) {j : ℕ} (ha : alignment = 2 ^ j) (hj : j ≤ kAddressBits)
  (hsize : size ≤ 2 ^ kAddressBits)
include hsane ha hj hsize

theorem childAlloc_spec (c : Child) (h : childAlloc env c st size alignment = (st', p, actual)) :
    Allocates st st' alignment size (p, actual) := by
  cases c with
  | sbrk =>
    have hbound : size + alignment < 2 ^ 63 := by
      have hle : alignment ≤ 2 ^ kAddressBits := ha ▸ Nat.pow_le_pow_right (by decide) hj
      unfold kAddressBits at hsize hle
      omega
    obtain ⟨new, hl, hp⟩ := sbrkAlloc_spec hsane ha hbound h
    exact ⟨new, [], hl, ⟨inside_nil new, fun hp0 => (hp hp0).1, fun _ _ _ hu => absurd hu List.not_mem_nil⟩,
      fun hp0 => (hp hp0).2⟩
  | mmap => exact mmapAlloc_spec hsane ha hj hsize h

theorem tryChild_spec (i : Fin 2) (h : tryChild env i st size alignment = (st', p, actual)) :
    Allocates st st' alignment size (p, actual) := by
  unfold tryChild at h
  by_cases hf : st.failed i = true
  · rw [if_pos hf] at h
    simp only [Prod.mk.injEq] at h
    obtain ⟨rfl, rfl, rfl⟩ := h
    exact allocates_null st alignment size 0
  rw [if_neg hf] at h
  rcases hc : childAlloc env (env.children i) st size alignment with ⟨st₁, q, a⟩
  have hs := childAlloc_spec hsane ha hj hsize _ hc
  rw [hc] at h
  dsimp only at h
  by_cases hq : q ≠ 0
  · rw [if_pos hq] at h
    simp only [Prod.mk.injEq] at h
    obtain ⟨rfl, rfl, rfl⟩ := h
    exact hs
  -- the child is marked failed
  rw [if_neg hq] at h
  simp only [Prod.mk.injEq] at h
  obtain ⟨rfl, rfl, rfl⟩ := h
  obtain rfl := not_not.mp hq
  exact hs.keep rfl rfl rfl

theorem defaultAlloc_spec (h : defaultAlloc env st size alignment = (st', p, actual)) :
    Allocates st st' alignment size (p, actual) := by
  unfold defaultAlloc at h
  rcases hc₀ : tryChild env 0 st size alignment with ⟨st₁, q, a⟩
  have hs₀ := tryChild_spec hsane ha hj hsize 0 hc₀
  rw [hc₀] at h
  dsimp only at h
  by_cases hq : q ≠ 0
  · rw [if_pos hq] at h
    simp only [Prod.mk.injEq] at h
    obtain ⟨rfl, rfl, rfl⟩ := h
    exact hs₀
  rw [if_neg hq] at h
  obtain rfl := not_not.mp hq
  rcases hc₁ : tryChild env 1 st₁ size alignment with ⟨st₂, q', a'⟩
  have hs₁ := hs₀.null_trans (tryChild_spec hsane ha hj hsize 1 hc₁)
  rw [hc₁] at h
  dsimp only at h
  by_cases hq' : q' ≠ 0
  · rw [if_pos hq'] at h
    simp only [Prod.mk.injEq] at h
    obtain ⟨rfl, rfl, rfl⟩ := h
    exact hs₁
  -- both failed: `failed_` is reset
  rw [if_neg hq'] at h
  simp only [Prod.mk.injEq] at h
  obtain ⟨rfl, rfl, rfl⟩ := h
  obtain rfl := not_not.mp hq'
  exact hs₁.keep rfl rfl rfl

/-- `TCMalloc_SystemAlloc`, for a power-of-two alignment and a size within
    the address space: it never crashes, and a block it returns is not
    `nullptr`, lies in the memory handed out during the call, aligned, of at
    least `size` bytes; its size is added to `TCMalloc_SystemTaken`. -/
theorem systemAlloc_spec (st : SysAlloc) :
    ∃ st' r new unmaps, systemAlloc env st size alignment = some (st', r) ∧
      Returns st st' alignment size r new unmaps := by
  obtain ⟨m, hm, hmem⟩ := hsane.memoryAligner
  have hle : alignment ≤ 2 ^ 48 := ha ▸ Nat.pow_le_pow_right (by decide) hj
  have hsize' : size ≤ 2 ^ 48 := hsize
  have hwrap : ¬ (size + alignment) % 2 ^ 64 < size := by
    rw [Nat.mod_eq_of_lt (by omega)]
    omega
  unfold systemAlloc
  rw [if_neg hwrap]
  dsimp only
  subst ha
  -- the alignment raised to `sizeof(MemoryAligner)` is a power of two `2 ^ k`
  obtain ⟨k, hk, hjk, -, hkle⟩ := @Word.max_two_pow j m
  rw [hmem, hk]
  rcases hd : defaultAlloc env st size (2 ^ k) with ⟨st₁, p, actual⟩
  obtain ⟨new, unmaps, hl, hw, hf⟩ := defaultAlloc_spec hsane rfl (hkle.trans (max_le hj hm)) hsize hd
  dsimp only
  by_cases hp : p = 0
  · rw [if_pos hp]
    exact ⟨st₁, none, new, unmaps, rfl, hl.given, hl.unmapped, hl.taken, hw.inside, fun _ h => by cases h⟩
  rw [if_neg hp]
  obtain ⟨hdvd, hge, hend⟩ := hf hp
  rw [if_neg (not_not.mpr (checkAddressBits_last hp hend))]
  refine ⟨_, some (p, actual), new, unmaps, rfl, hl.given, hl.unmapped, ?_, hw.inside, fun b hb => ?_⟩
  · show Word.add 64 st₁.systemTaken actual = Word.add 64 st.systemTaken actual
    rw [hl.taken]
  · obtain rfl := Option.some.inj hb
    exact ⟨hp, hw, fun _ => ⟨hjk.trans hdvd, hge, hend⟩⟩

end Default

/-! ## Runs -/

/-- The invariant of a run that returned the blocks `bs`: every range given
    back lies in memory the system handed out, and so does every block; when
    that memory does not overlap, neither do the blocks, and no range given
    back touches one. -/
structure Sound (st : SysAlloc) (bs : List (ℕ × ℕ)) : Prop where
  inside : Inside st.given st.unmapped
  block_in : ∀ b ∈ bs, ∀ x, In x b → Covered st.given x
  apart : st.given.Pairwise Apart → bs.Pairwise Apart ∧ ∀ u ∈ st.unmapped, ∀ b ∈ bs, Apart u b

theorem sound_init : Sound SysAlloc.init [] :=
  ⟨inside_nil [], fun _ hb => absurd hb List.not_mem_nil, fun _ => ⟨List.Pairwise.nil, fun _ hu => absurd hu List.not_mem_nil⟩⟩

/-- One call keeps the invariant: what it obtained is new, so the ranges it
    gave back and the block it returned miss the earlier blocks and ranges
    when nothing obtained overlaps. -/
theorem Sound.step {bs new unmaps : List (ℕ × ℕ)} {alignment size : ℕ} {r : Option (ℕ × ℕ)} (hs : Sound st bs)
    (hr : Returns st st' alignment size r new unmaps) : Sound st' (bs ++ r.toList) := by
  have hw : ∀ b ∈ r.toList, b.1 ≠ 0 ∧ Within new unmaps b := fun b hb =>
    let ⟨hb0, hwb, _⟩ := hr.block b (Option.mem_toList.mp hb)
    ⟨hb0, hwb⟩
  have hcov : ∀ b ∈ r.toList, ∀ x, In x b → Covered new x := fun b hb => (hw b hb).2.block_in (hw b hb).1
  refine ⟨by rw [hr.given, hr.unmapped]; exact hs.inside.append hr.inside, fun b hb x hx => ?_, fun hp => ?_⟩
  · rw [hr.given, covered_append]
    rcases List.mem_append.mp hb with hb | hb
    · exact .inl (hs.block_in b hb x hx)
    · exact .inr (hcov b hb x hx)
  rw [hr.given, List.pairwise_append] at hp
  obtain ⟨hp₁, hp₂, hcross⟩ := hp
  obtain ⟨hbs, hub⟩ := hs.apart hp₁
  have hr₁ : r.toList.Pairwise Apart := by
    cases r <;> simp
  refine ⟨List.pairwise_append.mpr ⟨hbs, hr₁, fun b hb c hc =>
    apart_of_covered_of_covered (hs.block_in b hb) (hcov c hc) hcross⟩, fun u hu b hb => ?_⟩
  rw [hr.unmapped] at hu
  -- a range given back before the call or during it, against a block
  -- returned before the call or by it
  rcases List.mem_append.mp hu with hu | hu <;> rcases List.mem_append.mp hb with hb | hb
  · exact hub u hu b hb
  · exact apart_of_covered_of_covered (hs.inside u hu) (hcov b hb) hcross
  · exact (apart_of_covered_of_covered (hs.block_in b hb) (hr.inside u hu) hcross).symm
  · exact (hw b hb).2.apart (hw b hb).1 hp₂ u hu

theorem reduceOption_cons (r : Option (ℕ × ℕ)) (rs : List (Option (ℕ × ℕ))) :
    (r :: rs).reduceOption = r.toList ++ rs.reduceOption := by
  cases r <;> simp [List.reduceOption_cons_of_some, List.reduceOption_cons_of_none]

section Run

variable (hsane : env.Sane)
include hsane

/-- A run of calls with power-of-two alignments and sizes within the
    address space never crashes and keeps the invariant; each answer serves
    its request, and `TCMalloc_SystemTaken` adds up the sizes returned. The
    induction is on the requests, from any state that satisfies the
    invariant. -/
theorem run_sound (reqs : List (ℕ × ℕ)) (hreqs : ∀ q ∈ reqs, q.1 ≤ 2 ^ kAddressBits ∧ ∃ j ≤ kAddressBits, q.2 = 2 ^ j)
    {bs : List (ℕ × ℕ)} (hs : Sound st bs) (ht : st.systemTaken < 2 ^ 64) :
    ∃ rs st', run env st reqs = some (rs, st') ∧
      List.Forall₂ (fun q r => ∀ b ∈ r, b.1 ≠ 0 ∧ q.2 ∣ b.1 ∧ q.1 ≤ b.2 ∧ b.1 + b.2 ≤ 2 ^ kAddressBits) reqs rs ∧
      Sound st' (bs ++ rs.reduceOption) ∧
      st'.systemTaken = (st.systemTaken + (rs.map fun r => r.elim 0 Prod.snd).sum) % 2 ^ 64 := by
  induction reqs generalizing st bs with
  | nil =>
    refine ⟨[], st, rfl, .nil, by rwa [List.reduceOption_nil, List.append_nil], ?_⟩
    rw [List.map_nil, List.sum_nil, Nat.add_zero, Nat.mod_eq_of_lt ht]
  | cons q reqs ih =>
    obtain ⟨size, alignment⟩ := q
    obtain ⟨hsize, j, hj, ha⟩ := hreqs _ List.mem_cons_self
    obtain ⟨st₁, r, new, unmaps, hcall, hr⟩ := systemAlloc_spec hsane ha hj hsize st
    have ht₁ : st₁.systemTaken < 2 ^ 64 := by
      rw [hr.taken]
      cases r
      · exact ht
      · exact Word.add_lt
    obtain ⟨rs, st', hrun, hserve, hs', ht'⟩ :=
      ih (fun q hq => hreqs q (List.mem_cons_of_mem _ hq)) (hs.step hr) ht₁
    refine ⟨r :: rs, st', by simp [run, hcall, hrun], .cons (fun b hb => ?_) hserve, ?_, ?_⟩
    · obtain ⟨hb0, -, hfit⟩ := hr.block b hb
      exact ⟨hb0, hfit hb0⟩
    · rwa [reduceOption_cons, ← List.append_assoc]
    · rw [ht', hr.taken]
      cases r
      · simp
      · simp only [Option.elim, List.map_cons, List.sum_cons, Word.add, Nat.mod_add_mod, Nat.add_assoc]

/-- Over every sequence of calls of `TCMalloc_SystemAlloc` with
    power-of-two alignments and sizes within the address space, from the
    start: nothing crashes; each block is not `nullptr`, aligned as asked, at
    least as large as asked and ends below `2 ^ kAddressBits`;
    `TCMalloc_SystemTaken` is the sum of their sizes; every block and every
    range given back with `munmap` lies in memory the system handed out.
    When the system never hands out the same memory twice, no two blocks
    overlap and no `munmap` touches a block. -/
theorem run_fresh (reqs : List (ℕ × ℕ))
    (hreqs : ∀ q ∈ reqs, q.1 ≤ 2 ^ kAddressBits ∧ ∃ j ≤ kAddressBits, q.2 = 2 ^ j) :
    ∃ rs st', run env SysAlloc.init reqs = some (rs, st') ∧
      List.Forall₂ (fun q r => ∀ b ∈ r, b.1 ≠ 0 ∧ q.2 ∣ b.1 ∧ q.1 ≤ b.2 ∧ b.1 + b.2 ≤ 2 ^ kAddressBits) reqs rs ∧
      st'.systemTaken = (rs.map fun r => r.elim 0 Prod.snd).sum % 2 ^ 64 ∧
      (∀ b ∈ rs.reduceOption, ∀ x, In x b → Covered st'.given x) ∧
      (∀ u ∈ st'.unmapped, ∀ x, In x u → Covered st'.given x) ∧
      (st'.given.Pairwise Apart →
        rs.reduceOption.Pairwise Apart ∧ ∀ u ∈ st'.unmapped, ∀ b ∈ rs.reduceOption, Apart u b) := by
  obtain ⟨rs, st', hrun, hserve, hs, ht⟩ := run_sound hsane reqs hreqs sound_init (Nat.two_pow_pos 64)
  rw [List.nil_append] at hs
  refine ⟨rs, st', hrun, hserve, ?_, hs.block_in, hs.inside, hs.apart⟩
  rw [ht, show SysAlloc.init.systemTaken = 0 from rfl, Nat.zero_add]

end Run

/-- A system whose `sbrk` always fails and whose `k`-th `mmap` lands at
    `(k + 1) GiB`, when that ends below `2 ^ kAddressBits`. -/
def spacedSystem : Env where
  sbrk _ _ := none
  mmap k n _ := if (k + 1) * 2 ^ 30 + n ≤ 2 ^ 48 then some ((k + 1) * 2 ^ 30) else none
  madvise _ := .ok
  pagesize := 4096
  memoryAligner := 64
  skipSbrk := false
  skipMmap := false
  disableRelease := false
  mmapFirst := false

theorem spacedSystem_sane : spacedSystem.Sane where
  pagesize := ⟨12, by decide, rfl⟩
  memoryAligner := ⟨6, by decide, rfl⟩
  sbrk_le _ _ _ h := by cases h
  mmap_le k n _ a h := by
    simp only [spacedSystem] at h
    split_ifs at h with hle
    obtain rfl := Option.some.inj h
    exact hle
  mmap_page k n _ a h := by
    simp only [spacedSystem] at h
    split_ifs at h
    obtain rfl := Option.some.inj h
    exact Dvd.dvd.mul_left (by decide) (k + 1)

theorem run_fresh_spaced :
    ∃ rs st', run spacedSystem SysAlloc.init [(100, 8), (8192, 4096)] = some (rs, st') ∧
      List.Forall₂ (fun q r => ∀ b ∈ r, b.1 ≠ 0 ∧ q.2 ∣ b.1 ∧ q.1 ≤ b.2 ∧ b.1 + b.2 ≤ 2 ^ kAddressBits)
        [(100, 8), (8192, 4096)] rs ∧
      st'.systemTaken = (rs.map fun r => r.elim 0 Prod.snd).sum % 2 ^ 64 ∧
      (∀ b ∈ rs.reduceOption, ∀ x, In x b → Covered st'.given x) ∧
      (∀ u ∈ st'.unmapped, ∀ x, In x u → Covered st'.given x) ∧
      (st'.given.Pairwise Apart →
        rs.reduceOption.Pairwise Apart ∧ ∀ u ∈ st'.unmapped, ∀ b ∈ rs.reduceOption, Apart u b) :=
  run_fresh spacedSystem_sane _ (by
    intro q hq
    simp only [List.mem_cons, List.not_mem_nil, or_false] at hq
    rcases hq with rfl | rfl
    · exact ⟨by decide, 3, by decide, rfl⟩
    · exact ⟨by decide, 12, by decide, rfl⟩)

end SystemAlloc

end Gperftools
