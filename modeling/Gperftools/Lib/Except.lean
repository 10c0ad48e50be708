import Mathlib.Data.Nat.Notation

/-!
# Fallible computations

A call of C code that can stop the program (a failed check, an abort) is a
computation in `Except ε`. Its results are peeled apart with `bind_eq_ok`: a
sequence that succeeds is made of steps that succeed.

A loop that searches, and when the search finds nothing refills what it
searches and tries again, is `retry`. Such a loop in C (`for (;;)`) need not
end; the model is given a number of rounds, and stops with `stop` when they
run out. `retry_inv` is its rule of invariants: what the refills keep holds
of the state the loop ends in, where the search finds what the loop returns.
-/

universe u

namespace Except

variable {ε α β : Type u}

/-- A sequence succeeds when its first step does, and the rest does from its
    result. -/
theorem bind_eq_ok {x : Except ε α} {f : α → Except ε β} {b : β} :
    x >>= f = .ok b ↔ ∃ a, x = .ok a ∧ f a = .ok b := by
  cases x with
  | error e => simp [bind, Except.bind]
  | ok a => simp [bind, Except.bind]

theorem map_eq_ok {x : Except ε α} {f : α → β} {b : β} :
    f <$> x = .ok b ↔ ∃ a, x = .ok a ∧ f a = b := by
  cases x with
  | error e => simp [Functor.map, Except.map]
  | ok a => simp [Functor.map, Except.map]

@[simp] theorem pure_eq_ok {a b : α} : (pure a : Except ε α) = .ok b ↔ a = b :=
  ⟨fun h => by cases h; rfl, fun h => h ▸ rfl⟩

end Except

namespace Retry

variable {σ β ε : Type u}

/-- A loop that searches `s`, and when the search finds nothing refills `s`
    and tries again, for at most `rounds` more rounds; `stop` when they run
    out. -/
def retry (search : σ → Except ε (Option β)) (refill : σ → Except ε σ) (stop : ε) :
    ℕ → σ → Except ε (β × σ)
  | rounds, s =>
    match search s with
    | .error e => .error e
    | .ok (some b) => .ok (b, s)
    | .ok none =>
      match rounds with
      | 0 => .error stop
      | rounds + 1 =>
        match refill s with
        | .error e => .error e
        | .ok s => retry search refill stop rounds s

variable {search : σ → Except ε (Option β)} {refill : σ → Except ε σ} {stop : ε}

/-- A search that fails ends the loop. -/
theorem retry_of_search_error {s : σ} {e : ε} (h : search s = .error e) (rounds : ℕ) :
    retry search refill stop rounds s = .error e := by
  rw [retry.eq_def]
  simp only [h]

/-- The rule of invariants of the loop: what the refills after searches that
    found nothing keep holds where the loop ends, and the search there finds
    what the loop returns. -/
theorem retry_inv (P : σ → Prop)
    (hrefill : ∀ s s', P s → search s = .ok none → refill s = .ok s' → P s') :
    ∀ (rounds : ℕ) (s : σ) {b : β} {s' : σ}, P s → retry search refill stop rounds s = .ok (b, s') →
      P s' ∧ search s' = .ok (some b)
  | rounds, s, b, s', hs, h => by
    rw [retry.eq_def] at h
    -- the loop is read off one round at a time, by the cases of the search
    cases hsearch : search s with
    | error e => simp only [hsearch] at h; cases h
    | ok found =>
      cases found with
      | some b' =>
        simp only [hsearch] at h
        cases h
        exact ⟨hs, hsearch⟩
      | none =>
        simp only [hsearch] at h
        cases rounds with
        | zero => cases h
        | succ rounds =>
          cases hfill : refill s with
          | error e => simp only [hfill] at h; cases h
          | ok s'' =>
            simp only [hfill] at h
            exact retry_inv P hrefill rounds s'' (hrefill s s'' hs hsearch hfill) h

end Retry
