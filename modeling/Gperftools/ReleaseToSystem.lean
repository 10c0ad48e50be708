import Gperftools.Common
import Gperftools.Lib.Word

/-!
# Releasing memory at a rate

`TCMallocImplementation::ReleaseToSystem(num_bytes)` (tcmalloc.cc) asks the
page heap to release `num_bytes` as whole pages, through
`ReleaseAtLeastNPages`, which releases whole spans and so may release more.
`extra_bytes_released_` carries what was released beyond the requests to
the next call, so that periodic calls release memory at the requested rate;
when the heap releases no more than was asked, the counter is reset to `0`.

The page heap is a state `σ` with its `ReleaseAtLeastNPages` as `release`,
which answers the number of pages released and the heap after. The bytes
asked and released in all, `B_m` and `R_m`, are counted alongside
(`releaseRun`).

* `releaseToSystem_step`: on requests and a counter that are whole pages,
  requests that fit 64 bits, and a heap that releases at least what is
  asked, every call keeps
  `extra_bytes_released_` the bytes released beyond the bytes asked, and
  `releaseRun_page_multiples`: so does every run;
* `releaseToSystem_forgets_shortfall`: a request that is not a whole page is
  rounded down to whole pages, and the counter is reset to `0` though the
  heap released all it was asked: the shortfall is forgotten, and the
  released bytes fall behind the requests by a page every two calls.
-/

namespace Gperftools

namespace TCMallocImplementation

variable {σ : Type*} (b : Build) (release : σ → ℕ → ℕ × σ)

/-- `ReleaseToSystem(num_bytes)` with `extra_bytes_released_ = extra`: the
    new `extra_bytes_released_`, the pages released and the heap. -/
def releaseToSystem (extra : ℕ) (heap : σ) (numBytes : ℕ) : ℕ × ℕ × σ :=
  if numBytes ≤ extra then
    -- released too much on a prior call: release nothing this time
    (extra - numBytes, 0, heap)
  else
    let numBytes := numBytes - extra
    let numPages := max (numBytes >>> b.pageShift) 1
    let (pages, heap) := release heap numPages
    let bytesReleased := (pages <<< b.pageShift) % 2 ^ 64
    if numBytes < bytesReleased then (bytesReleased - numBytes, pages, heap)
    else (0, pages, heap)

/-- The calls `ReleaseToSystem(b_1)`, ..., `ReleaseToSystem(b_m)`: the final
    `extra_bytes_released_` and heap, and `R_m`, the pages released in all
    shifted to bytes. -/
def releaseRun : ℕ → σ → List ℕ → ℕ × σ × ℕ
  | extra, heap, [] => (extra, heap, 0)
  | extra, heap, numBytes :: rest =>
    let (extra, pages, heap) := releaseToSystem b release extra heap numBytes
    let (extra, heap, released) := releaseRun extra heap rest
    (extra, heap, pages <<< b.pageShift + released)

/-! ## Whole pages -/

section Pages

variable {b release}
-- asked for pages that a 64-bit address space holds, the heap releases at
-- least those, and no more than the address space holds
variable (hrelease : ∀ heap k, k * b.kPageSize < 2 ^ 64 →
  k ≤ (release heap k).1 ∧ (release heap k).1 * b.kPageSize < 2 ^ 64)
include hrelease

/-- On whole pages, one call releases exactly what is asked beyond the
    counter, and the counter becomes what was released beyond that. -/
theorem releaseToSystem_step {extra numBytes : ℕ} (heap : σ) (hextra : b.kPageSize ∣ extra)
    (hbytes : b.kPageSize ∣ numBytes) (hnum : numBytes < 2 ^ 64) :
    b.kPageSize ∣ (releaseToSystem b release extra heap numBytes).1 ∧
      (releaseToSystem b release extra heap numBytes).1 + numBytes =
        extra + (releaseToSystem b release extra heap numBytes).2.1 <<< b.pageShift := by
  have hP := b.kPageSize_eq
  unfold releaseToSystem
  split_ifs with hle
  · exact ⟨Nat.dvd_sub hextra hbytes, by simp; omega⟩
  · -- a whole number of pages, at least one, is asked for
    obtain ⟨q, hq⟩ : b.kPageSize ∣ numBytes - extra := Nat.dvd_sub hbytes hextra
    have hq1 : 1 ≤ q := by
      rcases q with _ | q
      · omega
      · omega
    have hpages : max ((numBytes - extra) >>> b.pageShift) 1 = q := by
      rw [Nat.shiftRight_eq_div_pow, ← hP, hq, Nat.mul_div_cancel_left _ (b.kPageSize_eq ▸ Nat.two_pow_pos _)]
      omega
    obtain ⟨hge, hlt⟩ := hrelease heap q (by rw [Nat.mul_comm, ← hq]; omega)
    dsimp only
    rw [hpages]
    generalize release heap q = r at hge hlt
    obtain ⟨pages, heap'⟩ := r
    dsimp only at hge hlt ⊢
    -- the bytes released do not wrap, and cover the request
    have hbytes' : (pages <<< b.pageShift) % 2 ^ 64 = pages * b.kPageSize := by
      rw [Nat.shiftLeft_eq, ← hP, Nat.mod_eq_of_lt hlt]
    have hcover : numBytes - extra ≤ pages * b.kPageSize := by
      rw [hq, Nat.mul_comm]
      exact Nat.mul_le_mul_right _ hge
    rw [hbytes', Nat.shiftLeft_eq, ← hP]
    split_ifs with hlt'
    · dsimp only
      exact ⟨Nat.dvd_sub (Nat.dvd_mul_left _ _) ⟨q, hq⟩, by omega⟩
    · dsimp only
      exact ⟨Nat.dvd_zero _, by omega⟩

/-- On whole pages, from a counter that is whole pages, the counter is
    always the bytes released beyond the bytes asked: `R_m = B_m + extra`. -/
theorem releaseRun_page_multiples : ∀ (numBytes : List ℕ) (extra : ℕ) (heap : σ),
    b.kPageSize ∣ extra → (∀ x ∈ numBytes, b.kPageSize ∣ x ∧ x < 2 ^ 64) →
      (releaseRun b release extra heap numBytes).1 + numBytes.sum =
        extra + (releaseRun b release extra heap numBytes).2.2
  | [], extra, heap, _, _ => by simp [releaseRun]
  | x :: rest, extra, heap, hextra, hbytes => by
    obtain ⟨hdvd, hstep⟩ := releaseToSystem_step hrelease heap hextra (hbytes x List.mem_cons_self).1
      (hbytes x List.mem_cons_self).2
    rw [releaseRun]
    generalize releaseToSystem b release extra heap x = r at hdvd hstep ⊢
    obtain ⟨extra', pages, heap'⟩ := r
    have ih := releaseRun_page_multiples rest extra' heap' hdvd fun y hy => hbytes y (List.mem_cons_of_mem _ hy)
    dsimp only
    generalize releaseRun b release extra' heap' rest = s at ih ⊢
    obtain ⟨extra'', heap'', released⟩ := s
    dsimp only at hstep ih ⊢
    rw [List.sum_cons]
    omega

end Pages

/-- Requests of 16 KiB and 8 KiB to a heap that releases the pages asked:
    24 KiB asked, 24 KiB released, and the counter stays `0`. -/
theorem releaseRun_page_multiples_whole :
    (releaseRun Build.default (fun _ k => (k, ())) 0 () [16384, 8192]).1 + [16384, 8192].sum =
      0 + (releaseRun Build.default (fun _ k => (k, ())) 0 () [16384, 8192]).2.2 :=
  releaseRun_page_multiples (fun _ _ hk => ⟨le_rfl, hk⟩) [16384, 8192] 0 () (Nat.dvd_zero _) (by decide)

/-! ## A request that is not whole pages -/

/-- `ReleaseToSystem(12288)` twice with 8 KiB pages, from a fresh counter and a
    heap that releases the pages asked: one page of the request is rounded
    away each time, and the counter is reset to `0`. The heap releases 16 KiB
    for 24 KiB asked: `R_2 + kPageSize = B_2`. After `ReleaseToSystem(12288)`
    and `ReleaseToSystem(4096)`, 16 KiB were asked and 16 KiB released, but the
    counter holds 4 KiB. -/
theorem releaseToSystem_forgets_shortfall :
    (∀ k : ℕ, k ≤ ((fun (_ : Unit) (k : ℕ) => (k, ())) () k).1) ∧
      releaseRun Build.default (fun _ k => (k, ())) 0 () [12288, 12288] = (0, (), 16384) ∧
      ¬ [12288, 12288].sum < 16384 + Build.default.kPageSize ∧
      releaseRun Build.default (fun _ k => (k, ())) 0 () [12288, 4096] = (4096, (), 16384) ∧
      [12288, 4096].sum = 16384 := by
  refine ⟨fun k => le_refl k, ?_, ?_, ?_, rfl⟩ <;> decide

end TCMallocImplementation

end Gperftools
