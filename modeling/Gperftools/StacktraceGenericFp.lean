import Gperftools.Lib.Word
import Mathlib.Data.List.Chain
import Mathlib.Logic.Function.Basic

/-!
# Unwinding by frame pointers

`stacktrace_generic_fp::capture` (stacktrace_generic_fp-inl.h) walks the chain
of frame pointers: each frame holds the address of its caller's frame and a
return address. From the first frame it records the return addresses into
`result` (and the frame sizes into `sizes`), past the first `skip_count`, up
to `max_depth` of them, and follows a parent only when it looks like a frame:
at least `kTooSmallAddr`, at most `kFrameSizeThreshold` above the child by
unsigned difference, and aligned. With a `ucontext`, the first address comes
from the context and nothing is skipped.

The target is x86-64: a `frame` is `parent` then `pc`, `adjust_fp` is the
identity and `kAlignment` is `16`. Memory is any map from addresses to
words; `CheckAddress`, which probes a page with a system call, is a
parameter. `Trace.frames` is not in the source: it lists the frames the walk
reads, in order, to state which frames those are.

* `walk_spec`: the loop writes only the slots of the iterations it runs, and
  every frame it reads is plausible from the one before;
* `capture_bounded`: `capture` writes only `result[0 .. max_depth)` and
  `sizes[0 .. max_depth)`, returns a depth in `[0, max_depth]`, and every
  frame it reads lies at most `kFrameSizeThreshold` above the one before,
  modulo `2 ^ 64`, is at least `kTooSmallAddr` and is aligned;
* `capture_self_parent`: a frame whose parent is itself passes all three
  tests, as the difference is `0`, and the walk records its return address
  `max_depth` times.
-/

namespace Gperftools

namespace StacktraceGenericFp

/-- `sizeof(frame)`. -/
def frameSize : ℕ := 16

/-- Where `pc` lies in a `frame`. -/
def pcOffset : ℕ := 8

/-- `kAlignment` on x86. -/
def kAlignment : ℕ := 16

/-- `kTooSmallAddr`. -/
def kTooSmallAddr : ℕ := 16 <<< 10

/-- `kFrameSizeThreshold`. -/
def kFrameSizeThreshold : ℕ := 128 <<< 10

/-- What the walk reads: the word at every address, `getpagesize()`, and
    `CheckAddress(addr, pagesize)` on a page. -/
structure Env where
  mem : ℕ → ℕ
  pagesize : ℕ
  checkAddress : ℕ → Bool
  mem_lt : ∀ a, mem a < 2 ^ 64

/-- `CheckPageIsReadable(ptr, checked_ptr)`: the page of `ptr` is readable
    when it is the page of `checked_ptr`, or when `CheckAddress` says so. -/
def checkPageIsReadable (env : Env) (ptr checkedPtr : ℕ) : Bool :=
  let parentFrame := checkedPtr &&& Word.complement 64 (Word.sub 64 env.pagesize 1)
  let addr := ptr &&& Word.complement 64 (Word.sub 64 env.pagesize 1)
  if parentFrame ≠ 0 ∧ addr = parentFrame then true else env.checkAddress addr

/-- The arrays `result` and `sizes`, and the frames read so far. -/
structure Trace where
  result : ℤ → ℕ
  sizes : ℤ → ℤ
  frames : List ℕ

/-- `sizes[k] = size`, when the sizes are asked for, and `result[k] = pc`. -/
def Trace.record (withSizes : Bool) (t : Trace) (k : ℤ) (pc : ℕ) (size : ℤ) : Trace :=
  { t with
    sizes := if withSizes then Function.update t.sizes k size else t.sizes
    result := Function.update t.result k pc }

section Walk

variable (env : Env) (unsafeAccesses withSizes : Bool) (maxDepth skipCount : ℤ)

/-- The `while (i < max_depth)` loop of `capture`, from `i`, `prev_f` and
    `f`: the final `i`, and what was written. -/
def walk (i : ℤ) (prevF f : ℕ) (t : Trace) : ℤ × Trace :=
  if i < maxDepth then
    if !unsafeAccesses && !checkPageIsReadable env f prevF then (i, t)
    else
      let t := { t with frames := t.frames ++ [f] }
      let pc := env.mem (Word.add 64 f pcOffset)
      if pc = 0 then (i, t)
      else
        -- `sizes[i - skip_count]` is an `int`, the frame size a `uintptr_t`
        let t := if skipCount ≤ i then t.record withSizes (i - skipCount) pc (Word.signed 32 (Word.sub 64 prevF f))
          else t
        let parentFrameAddr := env.mem f
        if parentFrameAddr < kTooSmallAddr then (i + 1, t)
        else if kFrameSizeThreshold < Word.sub 64 parentFrameAddr f then (i + 1, t)
        else if Word.add 64 parentFrameAddr frameSize &&& (kAlignment - 1) ≠ 0 then (i + 1, t)
        else walk (i + 1) f parentFrameAddr t
  else (i, t)
termination_by (maxDepth - i).toNat

end Walk

/-- The rest of `capture`, from `max_depth += skip_count` on: the tests on
    the first frame, the loop, and the depth returned. -/
def captureFrom (env : Env) (unsafeAccesses withSizes : Bool) (t : Trace) (maxDepth skipCount i : ℤ)
    (initialFrame currentFrameAddr : ℕ) : ℤ × Trace :=
  -- `max_depth += skip_count` on `int`
  let maxDepth := Word.signed 32 (Word.ofInt 32 (maxDepth + skipCount))
  if Word.add 64 initialFrame frameSize &&& (kAlignment - 1) ≠ 0 then (i, t)
  else if initialFrame < kTooSmallAddr then (i, t)
  else if kFrameSizeThreshold < Word.sub 64 initialFrame currentFrameAddr then (i, t)
  else
    let r := walk env unsafeAccesses withSizes maxDepth skipCount i currentFrameAddr initialFrame t
    let t := if withSizes ∧ 0 < r.1 ∧ skipCount = 0 then { r.2 with sizes := Function.update r.2.sizes 0 0 } else r.2
    -- "Avoid returning negative depth."
    let i := if skipCount > r.1 then skipCount else r.1
    (i - skipCount, t)

/-- `capture<UnsafeAccesses, WithSizes>(result, max_depth, skip_count,
    initial_frame, initial_pc, sizes)`, where `initial_pc` is the address it
    points to, if any, and `currentFrameAddr` is
    `__builtin_frame_address(0)`: the depth returned, and what was written. -/
def capture (env : Env) (unsafeAccesses withSizes : Bool) (t : Trace) (maxDepth skipCount : ℤ)
    (initialFrame : ℕ) (initialPc : Option ℕ) (currentFrameAddr : ℕ) : ℤ × Trace :=
  match initialPc with
  -- with a `ucontext`, the first pc is the context's, and `skip_count` is `0`
  | some pc =>
    if maxDepth = 0 then (0, t)
    else captureFrom env unsafeAccesses withSizes { t with result := Function.update t.result 0 pc } maxDepth 0 1
      initialFrame currentFrameAddr
  | none => captureFrom env unsafeAccesses withSizes t maxDepth skipCount 0 initialFrame currentFrameAddr

/-! ## The loop -/

/-- A parent that passes the three tests of the loop: not below
    `kTooSmallAddr`, at most `kFrameSizeThreshold` above the child by
    unsigned difference, and aligned. -/
def Plausible (f f' : ℕ) : Prop :=
  kTooSmallAddr ≤ f' ∧ Word.sub 64 f' f ≤ kFrameSizeThreshold ∧ Word.add 64 f' frameSize &&& (kAlignment - 1) = 0

instance (f f' : ℕ) : Decidable (Plausible f f') := inferInstanceAs (Decidable (_ ∧ _ ∧ _))

@[simp]
theorem record_frames (withSizes : Bool) (t : Trace) (k : ℤ) (pc : ℕ) (size : ℤ) :
    (t.record withSizes k pc size).frames = t.frames := rfl

/-- A record leaves every other slot alone. -/
theorem record_of_ne {withSizes : Bool} {t : Trace} {k k' : ℤ} {pc : ℕ} {size : ℤ} (h : k' ≠ k) :
    (t.record withSizes k pc size).result k' = t.result k' ∧ (t.record withSizes k pc size).sizes k' = t.sizes k' := by
  refine ⟨Function.update_of_ne h _ _, ?_⟩
  unfold Trace.record
  split_ifs
  · exact Function.update_of_ne h _ _
  · rfl

section Walk

variable {env : Env} {unsafeAccesses withSizes : Bool} {maxDepth skipCount : ℤ}

/-- What the loop writes and reads, from a frame `f` plausible from `prev_f`:
    it ends between `i` and `max_depth`, writes only the slots
    `i - skip_count` to `max_depth - skip_count`, none of them negative, and
    the frames it reads make a plausible chain from `prev_f`. -/
theorem walk_spec (i : ℤ) (prevF f : ℕ) (t : Trace) (hf : Plausible prevF f) {i' : ℤ} {t' : Trace}
    (h : walk env unsafeAccesses withSizes maxDepth skipCount i prevF f t = (i', t')) :
    i ≤ i' ∧ i' ≤ max i maxDepth ∧
      (∀ k, k < 0 ∨ k < i - skipCount ∨ maxDepth - skipCount ≤ k → t'.result k = t.result k ∧ t'.sizes k = t.sizes k) ∧
      ∃ fs, t'.frames = t.frames ++ fs ∧ (prevF :: fs).IsChain Plausible := by
  rw [walk] at h
  by_cases hi : i < maxDepth
  swap
  · -- the loop is over
    rw [if_neg hi] at h
    cases h
    exact ⟨le_refl _, le_max_left _ _, fun _ _ => ⟨rfl, rfl⟩, [], by simp, List.isChain_singleton _⟩
  rw [if_pos hi] at h
  by_cases hcheck : (!unsafeAccesses && !checkPageIsReadable env f prevF) = true
  · -- the page of `f` is not readable
    rw [if_pos hcheck] at h
    cases h
    exact ⟨le_refl _, le_max_left _ _, fun _ _ => ⟨rfl, rfl⟩, [], by simp, List.isChain_singleton _⟩
  rw [if_neg hcheck] at h
  dsimp only at h
  by_cases hpc : env.mem (Word.add 64 f pcOffset) = 0
  · -- a null return address
    rw [if_pos hpc] at h
    cases h
    exact ⟨le_refl _, le_max_left _ _, fun _ _ => ⟨rfl, rfl⟩, [f], rfl, List.isChain_pair.2 hf⟩
  rw [if_neg hpc] at h
  -- the slot `i - skip_count` this iteration writes, if any
  generalize ht : (if skipCount ≤ i then
      Trace.record withSizes { t with frames := t.frames ++ [f] } (i - skipCount) (env.mem (Word.add 64 f pcOffset))
        (Word.signed 32 (Word.sub 64 prevF f))
    else { t with frames := t.frames ++ [f] }) = t₁ at h
  have hframes : t₁.frames = t.frames ++ [f] := by
    rw [← ht]
    split_ifs <;> rfl
  have hslots : ∀ k, k < 0 ∨ k < i - skipCount ∨ maxDepth - skipCount ≤ k →
      t₁.result k = t.result k ∧ t₁.sizes k = t.sizes k := by
    intro k hk
    rw [← ht]
    split_ifs with hskip
    · exact record_of_ne (by omega)
    · exact ⟨rfl, rfl⟩
  -- the three tests on the parent, each of which ends the walk after this iteration
  have hstop : i ≤ i + 1 ∧ i + 1 ≤ max i maxDepth ∧
      (∀ k, k < 0 ∨ k < i - skipCount ∨ maxDepth - skipCount ≤ k → t₁.result k = t.result k ∧ t₁.sizes k = t.sizes k) ∧
      ∃ fs, t₁.frames = t.frames ++ fs ∧ (prevF :: fs).IsChain Plausible :=
    ⟨by omega, by omega, hslots, [f], hframes, List.isChain_pair.2 hf⟩
  split_ifs at h with hlow hsize halign
  · cases h
    exact hstop
  · cases h
    exact hstop
  · cases h
    exact hstop
  · -- the parent is plausible: the walk goes on from it
    have hparent : Plausible f (env.mem f) := ⟨by omega, by omega, not_not.1 halign⟩
    obtain ⟨hlo, hhi, hrest, fs, hfs, hchain⟩ := walk_spec (i + 1) f (env.mem f) t₁ hparent h
    refine ⟨by omega, by omega, fun k hk => ?_, f :: fs, ?_, List.IsChain.cons_cons hf hchain⟩
    · obtain ⟨hres, hsz⟩ := hrest k (by omega)
      obtain ⟨hres₁, hsz₁⟩ := hslots k hk
      exact ⟨hres.trans hres₁, hsz.trans hsz₁⟩
    · rw [hfs, hframes, List.append_assoc, List.singleton_append]
termination_by (maxDepth - i).toNat

end Walk

/-! ## The whole capture -/

section Capture

variable {env : Env} {unsafeAccesses withSizes : Bool} {t t' : Trace} {maxDepth skipCount n : ℤ}
  {initialFrame currentFrameAddr : ℕ}

/-- The tests on the first frame are those of the loop. -/
theorem plausible_iff (f f' : ℕ) :
    Plausible f f' ↔ ¬ (Word.add 64 f' frameSize &&& (kAlignment - 1) ≠ 0) ∧ ¬ f' < kTooSmallAddr ∧
      ¬ kFrameSizeThreshold < Word.sub 64 f' f := by
  unfold Plausible
  omega

/-- From `max_depth += skip_count` on, with `max_depth` and `skip_count`
    non-negative `int`s and the loop started at `0`, or at `1` without
    skipping: the depth is in `[0, max_depth]`, only the slots
    `[0, max_depth)` change, and the frames read make a plausible chain from
    this function's own frame. -/
theorem captureFrom_spec {i : ℤ} (hmax : 0 ≤ maxDepth ∧ maxDepth < 2 ^ 31) (hskip : 0 ≤ skipCount ∧ skipCount < 2 ^ 31)
    (hi : i = 0 ∨ (i = 1 ∧ skipCount = 0 ∧ 1 ≤ maxDepth))
    (h : captureFrom env unsafeAccesses withSizes t maxDepth skipCount i initialFrame currentFrameAddr = (n, t')) :
    0 ≤ n ∧ n ≤ maxDepth ∧
      (∀ k, k < 0 ∨ maxDepth ≤ k → t'.result k = t.result k ∧ t'.sizes k = t.sizes k) ∧
      ∃ fs, t'.frames = t.frames ++ fs ∧ (currentFrameAddr :: fs).IsChain Plausible := by
  unfold captureFrom at h
  -- `max_depth + skip_count` either fits in an `int` or wraps below zero
  have hwrap := Word.signed_ofInt_of_nonneg (w := 32) (by decide) (z := maxDepth + skipCount) (by omega) (by omega)
  generalize Word.signed 32 (Word.ofInt 32 (maxDepth + skipCount)) = maxDepth' at h hwrap
  have hmax' : (maxDepth' = maxDepth + skipCount) ∨ maxDepth' < 0 := by
    split_ifs at hwrap <;> omega
  by_cases hfirst : Plausible currentFrameAddr initialFrame
  swap
  · -- the first frame fails a test: nothing is read or written
    rw [plausible_iff] at hfirst
    have h' : (i, t) = (n, t') := by
      split_ifs at h <;> first | exact h | exact absurd ⟨‹_›, ‹_›, ‹_›⟩ hfirst
    cases h'
    exact ⟨by omega, by omega, fun _ _ => ⟨rfl, rfl⟩, [], by simp, List.isChain_singleton _⟩
  obtain ⟨halign, hlow, hsize⟩ := (plausible_iff _ _).1 hfirst
  rw [if_neg halign, if_neg hlow, if_neg hsize] at h
  generalize hw : walk env unsafeAccesses withSizes maxDepth' skipCount i currentFrameAddr initialFrame t = r at h
  obtain ⟨i', t₁⟩ := r
  obtain ⟨hlo, hhi, hslots, fs, hfs, hchain⟩ := walk_spec i currentFrameAddr initialFrame t hfirst hw
  dsimp only at h
  cases h
  refine ⟨by split_ifs <;> omega, by split_ifs <;> omega, fun k hk => ?_, fs, by split_ifs <;> exact hfs, hchain⟩
  -- the loop wrote only below `max_depth`, and `sizes[0] = 0` only when it ran
  obtain ⟨hres, hsz⟩ := hslots k (by omega)
  split_ifs with hzero
  · obtain ⟨-, hpos, hskip0⟩ := hzero
    refine ⟨hres, ?_⟩
    show Function.update t₁.sizes 0 0 k = t.sizes k
    rw [Function.update_of_ne (by omega), hsz]
  · exact ⟨hres, hsz⟩

/-- `capture` is bounded: for non-negative `int`s `max_depth` and
    `skip_count`, with or without a `ucontext`, it returns a depth in
    `[0, max_depth]`, changes only `result[0 .. max_depth)` and
    `sizes[0 .. max_depth)`, and every frame it reads passes the tests from
    the frame before, starting from its own: at least `kTooSmallAddr`, at
    most `kFrameSizeThreshold` above by unsigned difference, and aligned. -/
theorem capture_bounded (hmax : 0 ≤ maxDepth ∧ maxDepth < 2 ^ 31) (hskip : 0 ≤ skipCount ∧ skipCount < 2 ^ 31)
    (initialPc : Option ℕ)
    (h : capture env unsafeAccesses withSizes t maxDepth skipCount initialFrame initialPc currentFrameAddr = (n, t')) :
    0 ≤ n ∧ n ≤ maxDepth ∧
      (∀ k, k < 0 ∨ maxDepth ≤ k → t'.result k = t.result k ∧ t'.sizes k = t.sizes k) ∧
      ∃ fs, t'.frames = t.frames ++ fs ∧ (currentFrameAddr :: fs).IsChain Plausible := by
  cases initialPc with
  | none => exact captureFrom_spec hmax hskip (Or.inl rfl) h
  | some pc =>
    rw [capture] at h
    split_ifs at h with hzero
    · cases h
      exact ⟨le_refl _, hmax.1, fun _ _ => ⟨rfl, rfl⟩, [], by simp, List.isChain_singleton _⟩
    · -- the context's pc goes to `result[0]`, inside the slots
      obtain ⟨hlo, hhi, hslots, rest⟩ :=
        captureFrom_spec hmax ⟨le_refl 0, by decide⟩ (Or.inr ⟨rfl, rfl, by omega⟩) h
      refine ⟨hlo, hhi, fun k hk => ?_, rest⟩
      rw [(hslots k hk).1, (hslots k hk).2]
      exact ⟨Function.update_of_ne (by omega) _ _, rfl⟩

end Capture

/-- Two frames under this function's frame at `0x7ffeffe0`: `0x7fff0000`,
    returning to `0x401000`, whose parent `0x7fff0100` returns to `0x402000`
    and ends the chain. -/
def twoFrames : Env where
  mem a := if a = 0x7fff0000 then 0x7fff0100 else if a = 0x7fff0008 then 0x401000
    else if a = 0x7fff0108 then 0x402000 else 0
  pagesize := 4096
  checkAddress _ := true
  mem_lt a := by split_ifs <;> decide

/-- `capture<false, true>` of eight frames, skipping one, on `twoFrames`. -/
def twoFramesCapture : ℤ × Trace :=
  capture twoFrames false true ⟨fun _ => 0, fun _ => 0, []⟩ 8 1 0x7fff0000 none 0x7ffeffe0

theorem capture_bounded_twoFrames :
    0 ≤ twoFramesCapture.1 ∧ twoFramesCapture.1 ≤ 8 ∧
      (∀ k, k < 0 ∨ 8 ≤ k → twoFramesCapture.2.result k = 0 ∧ twoFramesCapture.2.sizes k = 0) ∧
      ∃ fs, twoFramesCapture.2.frames = [] ++ fs ∧ (0x7ffeffe0 :: fs).IsChain Plausible :=
  have h : capture twoFrames false true ⟨fun _ => 0, fun _ => 0, []⟩ 8 1 0x7fff0000 none 0x7ffeffe0 =
      (twoFramesCapture.1, twoFramesCapture.2) := rfl
  capture_bounded ⟨by decide, by decide⟩ ⟨by decide, by decide⟩ none h

/-! ## A frame that is its own parent -/

/-- The tests compare the parent with the child by unsigned difference, which
    is `0` for a frame that is its own parent: such a frame passes them
    whenever it passes them from any child. -/
theorem Plausible.self {f f' : ℕ} (h : Plausible f f') : Plausible f' f' := by
  obtain ⟨hlow, -, halign⟩ := h
  refine ⟨hlow, ?_, halign⟩
  -- `f' - f'` is `0` in every width
  have hzero : Word.sub 64 f' f' = 0 := by
    have := Nat.mod_add_div f' (2 ^ 64)
    have := Nat.mod_lt f' (Nat.two_pow_pos 64)
    unfold Word.sub
    rw [show f' + (2 ^ 64 - f' % 2 ^ 64) = 2 ^ 64 * (f' / 2 ^ 64 + 1) by rw [Nat.mul_add]; omega,
      Nat.mul_mod_right]
  rw [hzero]
  decide

section SelfParent

variable {env : Env} (unsafeAccesses withSizes : Bool) {maxDepth : ℤ} {f : ℕ}

/-- From a frame that is its own parent, the loop reads it once for each
    slot left up to `max_depth`, and records its return address in each. -/
theorem walk_self_parent (hparent : env.mem f = f) (hpc : env.mem (Word.add 64 f pcOffset) ≠ 0)
    (hf : Plausible f f) (hread : ∀ prevF, checkPageIsReadable env f prevF = true)
    (i : ℤ) (prevF : ℕ) (t : Trace) (hi : 0 ≤ i) (hiM : i ≤ maxDepth) :
    ∃ t', walk env unsafeAccesses withSizes maxDepth 0 i prevF f t = (maxDepth, t') ∧
      t'.frames = t.frames ++ List.replicate (maxDepth - i).toNat f ∧
      ∀ k, i ≤ k → k < maxDepth → t'.result k = env.mem (Word.add 64 f pcOffset) := by
  rw [walk]
  by_cases hlt : i < maxDepth
  swap
  · -- no slot left
    rw [if_neg hlt, show i = maxDepth by omega]
    exact ⟨t, rfl, by simp, fun k hk₁ hk₂ => absurd hk₂ (by omega)⟩
  rw [if_pos hlt, if_neg (by simp [hread prevF])]
  dsimp only
  rw [if_neg hpc, if_pos (by omega : (0 : ℤ) ≤ i)]
  -- the parent is the frame itself, and passes the three tests
  obtain ⟨hlow, hsize, halign⟩ := hf
  rw [hparent, if_neg (by omega), if_neg (by omega), if_neg (not_not.2 halign)]
  generalize ht₁ : Trace.record withSizes { t with frames := t.frames ++ [f] } (i - 0)
    (env.mem (Word.add 64 f pcOffset)) (Word.signed 32 (Word.sub 64 prevF f)) = t₁
  obtain ⟨t', hw, hframes, hres⟩ :=
    walk_self_parent hparent hpc ⟨hlow, hsize, halign⟩ hread (i + 1) f t₁ (by omega) (by omega)
  refine ⟨t', hw, ?_, fun k hk₁ hk₂ => ?_⟩
  · rw [hframes, ← ht₁, record_frames, List.append_assoc, List.singleton_append, ← List.replicate_succ]
    congr 2
    omega
  · by_cases hk : k = i
    · -- the slot of this iteration, which the rest of the loop leaves alone
      obtain ⟨hkeep, -⟩ := (walk_spec (i + 1) f f t₁ ⟨hlow, hsize, halign⟩ hw).2.2.1 k (by omega)
      rw [hkeep, ← ht₁, hk, Int.sub_zero]
      exact Function.update_self _ _ _
    · exact hres k (by omega) hk₂
termination_by (maxDepth - i).toNat

/-- Frame-pointer unwinding repeats a frame that is its own parent: from a
    first frame that passes the tests from this function's frame, holds a
    return address and points to itself, on a readable page, `capture`
    without a context and without skipping reads that frame `max_depth`
    times, records its return address in every slot, and returns
    `max_depth`. -/
theorem capture_self_parent (env : Env) (unsafeAccesses withSizes : Bool) (t : Trace) (maxDepth : ℤ)
    (f currentFrameAddr : ℕ) (hmax : 0 < maxDepth ∧ maxDepth < 2 ^ 31) (hfirst : Plausible currentFrameAddr f)
    (hparent : env.mem f = f) (hpc : env.mem (Word.add 64 f pcOffset) ≠ 0)
    (hpage : env.checkAddress (f &&& Word.complement 64 (Word.sub 64 env.pagesize 1)) = true) :
    ∃ t', capture env unsafeAccesses withSizes t maxDepth 0 f none currentFrameAddr = (maxDepth, t') ∧
      t'.frames = t.frames ++ List.replicate maxDepth.toNat f ∧
      ∀ k, 0 ≤ k → k < maxDepth → t'.result k = env.mem (Word.add 64 f pcOffset) := by
  have hread : ∀ prevF, checkPageIsReadable env f prevF = true := fun prevF => by
    unfold checkPageIsReadable
    dsimp only
    split_ifs with hsame
    · rfl
    · exact hpage
  obtain ⟨t₁, hw, hframes, hres⟩ :=
    walk_self_parent unsafeAccesses withSizes hparent hpc hfirst.self hread 0 currentFrameAddr t (le_refl 0)
      hmax.1.le
  rw [Int.sub_zero] at hframes
  obtain ⟨halign, hlow, hsize⟩ := (plausible_iff _ _).1 hfirst
  have hdepth : Word.signed 32 (Word.ofInt 32 (maxDepth + 0)) = maxDepth := by
    rw [Word.signed_ofInt_of_nonneg (by decide) (by omega) (by omega), if_pos (by omega), Int.add_zero]
  refine ⟨{ t₁ with sizes := if withSizes then Function.update t₁.sizes 0 0 else t₁.sizes }, ?_, hframes, hres⟩
  rw [capture, captureFrom]
  dsimp only
  rw [hdepth, if_neg halign, if_neg hlow, if_neg hsize, hw]
  dsimp only
  rw [if_neg (by omega), Int.sub_zero]
  -- `sizes[0] = 0` when the sizes are asked for
  cases withSizes
  · simp
  · simp [hmax.1]

end SelfParent

/-- At `0x7fff0000`, two words under this function's frame, a frame that is
    its own parent with return address `0x401000`: `capture` records it in
    all three slots. -/
theorem capture_self_parent_three_slots :
    0 < (3 : ℤ) ∧ (3 : ℤ) < 2 ^ 31 ∧ Plausible 0x7ffeffe0 0x7fff0000 ∧
      (⟨fun a => if a = 0x7fff0000 then 0x7fff0000 else 0x401000, 4096, fun _ => true,
        fun a => by split <;> decide⟩ : Env).mem 0x7fff0000 = 0x7fff0000 ∧
      (⟨fun a => if a = 0x7fff0000 then 0x7fff0000 else 0x401000, 4096, fun _ => true,
        fun a => by split <;> decide⟩ : Env).mem (Word.add 64 0x7fff0000 pcOffset) ≠ 0 ∧
      (⟨fun a => if a = 0x7fff0000 then 0x7fff0000 else 0x401000, 4096, fun _ => true,
        fun a => by split <;> decide⟩ : Env).checkAddress
          (0x7fff0000 &&& Word.complement 64 (Word.sub 64 4096 1)) = true ∧
      ∃ t', capture ⟨fun a => if a = 0x7fff0000 then 0x7fff0000 else 0x401000, 4096, fun _ => true,
          fun a => by split <;> decide⟩ false false ⟨fun _ => 0, fun _ => 0, []⟩ 3 0 0x7fff0000 none
          0x7ffeffe0 = (3, t') ∧
        t'.frames = [] ++ List.replicate (3 : ℤ).toNat 0x7fff0000 ∧
        ∀ k, 0 ≤ k → k < 3 → t'.result k =
          (⟨fun a => if a = 0x7fff0000 then 0x7fff0000 else 0x401000, 4096, fun _ => true,
            fun a => by split <;> decide⟩ : Env).mem (Word.add 64 0x7fff0000 pcOffset) :=
  ⟨by decide, by decide, by decide, rfl, by decide, rfl,
    capture_self_parent _ false false ⟨fun _ => 0, fun _ => 0, []⟩ 3 0x7fff0000 0x7ffeffe0 ⟨by decide, by decide⟩
      (by decide) rfl (by decide) rfl⟩

end StacktraceGenericFp

end Gperftools
