import Gperftools.SystemAlloc.Fresh

/-!
# Giving pages back

`TCMalloc_SystemRelease(start, length)` rounds the start of the range up and
its end down to a page, and asks `madvise` to free the pages between them,
again as long as it fails with `EAGAIN`.

* `adviseLoop_advise`: the loop hands `madvise` the same range at every
  attempt, and changes nothing but the calls it counts and logs;
* `systemRelease_pages`: for memory below `2 ^ kAddressBits`, every range
  handed to `madvise` is exactly the whole pages inside
  `[start, start + length)`: from the first page boundary at or after
  `start` to the last one at or before the end. Nothing else is touched,
  and nothing is asked when no whole page lies inside.
-/

namespace Gperftools

namespace SystemAlloc

/-- `st` after `n` calls of `madvise` on `[a, e)`. -/
def SysAlloc.advise (st : SysAlloc) (n a e : ℕ) : SysAlloc :=
  { st with madviseCalls := st.madviseCalls + n, advised := st.advised ++ List.replicate n (a, e - a) }

@[simp]
theorem SysAlloc.advise_zero (st : SysAlloc) (a e : ℕ) : st.advise 0 a e = st := by
  simp [SysAlloc.advise]

/-- One more call before `n` others is `n + 1` calls. -/
theorem SysAlloc.advise_succ (st : SysAlloc) (n a e : ℕ) :
    (st.advise 1 a e).advise n a e = st.advise (n + 1) a e := by
  simp only [SysAlloc.advise, List.append_assoc, SysAlloc.mk.injEq, true_and]
  refine ⟨by omega, ?_⟩
  rw [List.replicate_succ]
  rfl

variable (env : Env)

/-- The retry loop makes some number of calls of `madvise`, all on the same
    range, and changes nothing else. The induction is on the attempts left. -/
theorem adviseLoop_advise (a e : ℕ) :
    ∀ fuel st, ∃ n, (adviseLoop env a e fuel st).1 = st.advise n a e
  | 0, st => ⟨0, (SysAlloc.advise_zero st a e).symm⟩
  | fuel + 1, st => by
    unfold adviseLoop
    -- `EAGAIN` tries again; any other answer ends the loop after this call
    cases env.madvise st.madviseCalls with
    | ok => exact ⟨1, rfl⟩
    | fail => exact ⟨1, rfl⟩
    | again =>
      obtain ⟨n, hn⟩ := adviseLoop_advise a e fuel (st.advise 1 a e)
      exact ⟨n + 1, hn.trans (SysAlloc.advise_succ st n a e)⟩

/-- `x & ~(pagesize - 1)` for a page of `2 ^ i` bytes, `i ≤ kAddressBits`,
    rounds `x` down to a page. -/
theorem and_complement_page {i x : ℕ} (hi : i ≤ kAddressBits) (hx : x < 2 ^ 64) :
    x &&& Word.complement 64 (2 ^ i - 1) = x / 2 ^ i * 2 ^ i :=
  Word.and_complement (hi.trans (by decide)) hx

/-- `TCMalloc_SystemRelease` on memory below `2 ^ kAddressBits`: it makes
    some number of calls of `madvise`, all on `[a, e)`, and changes nothing
    else; when it calls it, `a` is the first page boundary at or after
    `start`, `e` the last one at or before `start + length`, and `a < e`. -/
theorem systemRelease_pages (hsane : env.Sane) {st st' : SysAlloc} {start length fuel : ℕ} {ok : Bool}
    (hend : start + length ≤ 2 ^ kAddressBits) (h : systemRelease env st start length fuel = (st', ok)) :
    ∃ n a e, st' = st.advise n a e ∧
      (0 < n → a < e ∧ env.pagesize ∣ a ∧ start ≤ a ∧ a < start + env.pagesize ∧
        env.pagesize ∣ e ∧ e ≤ start + length ∧ start + length < e + env.pagesize) := by
  obtain ⟨i, hi, hpage⟩ := hsane.pagesize
  have hP : 0 < 2 ^ i := Nat.two_pow_pos i
  have hPle : 2 ^ i ≤ 2 ^ 48 := Nat.pow_le_pow_right (by decide) hi
  have hend' : start + length ≤ 2 ^ 48 := hend
  unfold systemRelease at h
  by_cases hdis : env.disableRelease = true
  · rw [if_pos hdis] at h
    obtain ⟨rfl, -⟩ := Prod.mk.inj h
    exact ⟨0, 0, 0, (SysAlloc.advise_zero st 0 0).symm, fun h0 => absurd h0 (Nat.lt_irrefl 0)⟩
  rw [if_neg hdis] at h
  dsimp only at h
  rw [hpage, Nat.mod_eq_of_lt (show start + length < 2 ^ 64 by omega),
    Nat.mod_eq_of_lt (show start + 2 ^ i - 1 < 2 ^ 64 by omega), and_complement_page hi (by omega),
    and_complement_page hi (by omega)] at h
  -- the start rounded up and the end rounded down to a page
  generalize ha : (start + 2 ^ i - 1) / 2 ^ i * 2 ^ i = a at h
  generalize he : (start + length) / 2 ^ i * 2 ^ i = e at h
  by_cases hlt : a < e
  · rw [if_pos hlt] at h
    obtain ⟨n, hn⟩ := adviseLoop_advise env a e fuel st
    rw [h] at hn
    refine ⟨n, a, e, hn, fun _ => ?_⟩
    rw [hpage]
    refine ⟨hlt, ?_, ?_, ?_, ?_, ?_, ?_⟩
    · exact ha ▸ Nat.dvd_mul_left _ _
    · exact ha ▸ Word.le_roundUp start hP
    · have := Nat.div_mul_le_self (start + 2 ^ i - 1) (2 ^ i)
      omega
    · exact he ▸ Nat.dvd_mul_left _ _
    · exact he ▸ Nat.div_mul_le_self _ _
    · have hdiv := Nat.div_add_mod (start + length) (2 ^ i)
      have hmod := Nat.mod_lt (start + length) hP
      rw [Nat.mul_comm] at hdiv
      omega
  · rw [if_neg hlt] at h
    obtain ⟨rfl, -⟩ := Prod.mk.inj h
    exact ⟨0, a, e, (SysAlloc.advise_zero st a e).symm, fun h0 => absurd h0 (Nat.lt_irrefl 0)⟩

theorem systemRelease_pages_spaced :
    ∃ n a e, (systemRelease spacedSystem SysAlloc.init 5000 10000 3).1 = SysAlloc.init.advise n a e ∧
      (0 < n → a < e ∧ spacedSystem.pagesize ∣ a ∧ 5000 ≤ a ∧ a < 5000 + spacedSystem.pagesize ∧
        spacedSystem.pagesize ∣ e ∧ e ≤ 5000 + 10000 ∧ 5000 + 10000 < e + spacedSystem.pagesize) :=
  systemRelease_pages spacedSystem spacedSystem_sane (by decide) Prod.mk.eta.symm

end SystemAlloc

end Gperftools
