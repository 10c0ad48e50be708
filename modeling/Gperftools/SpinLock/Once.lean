import Gperftools.SpinLock

/-!
# Running once

`TrivialOnce::RunOnce(body)` (base/spinlock.h) runs `body` once for all its
callers. It loads `done_flag_`; if the flag is not yet set, it takes the spin
lock `lock_storage_` (`SpinLockHolder`), loads the flag again, and only then
runs `body`, sets the flag and unlocks. tcmalloc uses it for its lazy
initialisations (the default pages allocator of low_level_alloc.cc, the
sampler's parameters, the profile handler).

The model runs any number of threads calling `RunOnce` on one `TrivialOnce`:
where each thread is in `RunOnce` (`Phase`), the state of the lock
(`SpinLock.State`) and the flag. An event is an action of the lock, taken by a
thread in its `Lock` or its `Unlock`, or a step of `RunOnce` between them.
`ran` records the threads that started `body`; the program does not keep it.

* `lock_reachable`: the lock inside runs as the spin lock alone does, so every
  invariant of `SpinLock` holds of it. This is a simulation: every step of
  `RunOnce` is a step of the lock, or leaves the lock alone.
* `runOnce_once`: in every state that an interleaving reaches, `body` has
  started at most once. Once any call has returned, `body` has run to its
  end, and the call that returned true is the one that ran it.
-/

namespace Gperftools

namespace SpinLock

/-- Where a thread is in `RunOnce`. -/
inductive Phase
  /-- Not in `RunOnce`. -/
  | idle
  /-- In `SpinLockHolder`'s `Lock`. -/
  | locking
  /-- Holding the lock, at the second load of the flag. -/
  | recheck
  /-- Running `body()`. -/
  | body
  /-- At `done_atomic->store(1)`. -/
  | store
  /-- In `~SpinLockHolder`'s `Unlock`, about to return `r`. -/
  | unlocking (r : Bool)
  /-- `RunOnce` returned `r`. -/
  | returned (r : Bool)
  deriving DecidableEq

namespace Phase

variable {τ : Type*}

/-- Outside `RunOnce`, where a thread may call it. -/
def outside : Phase → Bool
  | idle | returned _ => true
  | _ => false

/-- Between `Lock` and `Unlock`. -/
def critical : Phase → Bool
  | recheck | body | store => true
  | _ => false

/-- In `body()`, or just after it, before the flag is set. -/
def running : Phase → Bool
  | body | store => true
  | _ => false

/-- On the way out, or out, after the second load or the store. -/
def leaving : Phase → Bool
  | unlocking _ | returned _ => true
  | _ => false

/-- On the way out, or out, with `true`. -/
def won : Phase → Bool
  | unlocking true | returned true => true
  | _ => false

/-- The lock's actions that a thread takes in its phase: those of `Lock`
    while it locks, those of `Unlock` while it unlocks. -/
def allows : Phase → Event τ → Bool
  | locking, .lock _ _ | locking, .step _ | locking, .timeout _ => true
  | unlocking _, .unlock _ | unlocking _, .step _ | unlocking _, .wake _ _ => true
  | _, _ => false

theorem running_critical {p : Phase} (h : p.running) : p.critical := by
  cases p <;> first | rfl | cases h

theorem running_of_outside {p : Phase} (h : p.outside) : p.running = false := by
  cases p <;> first | rfl | cases h

/-- A thread takes the lock's actions only outside its critical section. -/
theorem critical_of_allows {p : Phase} {e : Event τ} (h : p.allows e) : p.critical = false := by
  cases p <;> first | rfl | (cases e <;> cases h)

end Phase

/-- The threads `τ` calling `RunOnce` on one `TrivialOnce`. -/
structure Once (τ : Type*) where
  /-- `lock_storage_`. -/
  lock : State τ
  /-- `done_flag_ == 1`. -/
  done : Bool
  phase : τ → Phase
  /-- The threads that started `body`, in order. -/
  ran : List τ

/-- An event of the threads calling `RunOnce`. -/
inductive OnceEvent (τ : Type*)
  /-- `t` calls `RunOnce`: `done_atomic->load(std::memory_order_acquire)`. -/
  | call (t : τ)
  /-- An action of the lock, by a thread in its `Lock` or `Unlock`. -/
  | lock (e : Event τ)
  /-- The next step of `t` in `RunOnce`: `Lock` returns, the second load,
      `body` returns, the store, `Unlock` returns. -/
  | next (t : τ)

variable {τ : Type*}

namespace Once

/-- A zero `TrivialOnce` (it is trivial, so a static one is all zeros): the
    flag clear, the lock free. -/
def init : Once τ := ⟨State.init, false, fun _ => .idle, []⟩

variable [DecidableEq τ]

/-- `s` with thread `t` at `p`. -/
def setPhase (s : Once τ) (t : τ) (p : Phase) : Once τ :=
  { s with phase := Function.update s.phase t p }

variable (P : Platform)

/-- One event; `none` where the thread is not at that point of `RunOnce`. -/
def step (s : Once τ) : OnceEvent τ → Option (Once τ)
  -- `if (done_atomic->load(std::memory_order_acquire) == 1) return false;`
  | .call t =>
    if (s.phase t).outside then some (s.setPhase t (if s.done then .returned false else .locking)) else none
  | .lock e =>
    if (s.phase e.actor).allows e then (SpinLock.step P s.lock e).map fun l => { s with lock := l } else none
  | .next t =>
    match s.phase t with
    -- `SpinLockHolder h(lock_storage_.get());` returns
    | .locking => if s.lock.pc t = .held then some (s.setPhase t .recheck) else none
    -- `if (done_atomic->load(std::memory_order_relaxed) == 1) return false;`,
    -- which unlocks first; else `body();`
    | .recheck =>
      if s.done then some (s.setPhase t (.unlocking false))
      else some { s.setPhase t .body with ran := s.ran ++ [t] }
    | .body => some (s.setPhase t .store)
    -- `done_atomic->store(1, std::memory_order_release); return true;`
    | .store => some { s.setPhase t (.unlocking true) with done := true }
    -- `~SpinLockHolder` returns
    | .unlocking r => if s.lock.pc t = .idle then some (s.setPhase t (.returned r)) else none
    | .idle | .returned _ => none

end Once

namespace Once

variable [DecidableEq τ] {P : Platform} {s s' : Once τ}

@[simp] theorem setPhase_phase_self (s : Once τ) (t : τ) (p : Phase) : (s.setPhase t p).phase t = p :=
  Function.update_self _ _ _

theorem setPhase_phase_of_ne (s : Once τ) {t u : τ} (p : Phase) (h : u ≠ t) :
    (s.setPhase t p).phase u = s.phase u :=
  Function.update_of_ne h _ _

/-! ## The lock inside -/

/-- Each event is an action of the lock, or leaves it as it is. -/
theorem step_lock {e : OnceEvent τ} (h : step P s e = some s') :
    s'.lock = s.lock ∨ ∃ e', SpinLock.step P s.lock e' = some s'.lock := by
  cases e with
  | call t =>
    rw [step] at h
    split_ifs at h <;> cases h <;> exact .inl rfl
  | lock e =>
    rw [step] at h
    split_ifs at h
    obtain ⟨l, hl, rfl⟩ := Option.map_eq_some_iff.mp h
    exact .inr ⟨e, hl⟩
  | next t =>
    rw [step] at h
    split at h <;> (try split_ifs at h) <;> cases h <;> exact .inl rfl

/-- The lock inside `RunOnce` runs as the spin lock alone does: every state
    of it that an interleaving reaches is one the lock reaches by itself, so
    the invariants of `SpinLock` hold of it. -/
theorem lock_reachable (hs : Reachable (step P) init s) : Reachable (SpinLock.step P) State.init s.lock :=
  hs.map Once.lock fun _ h => step_lock h

/-! ## Running once -/

/-- What `RunOnce` keeps true, besides the lock's own invariant. -/
structure Inv (s : Once τ) : Prop where
  /-- Between `Lock` and `Unlock` a thread holds the lock. -/
  critical : ∀ t, (s.phase t).critical → s.lock.pc t = .held
  ran_le : s.ran.length ≤ 1
  /-- The thread in `body`, or at the store after it, is the one that started
      it, and the flag is clear. -/
  running : ∀ t, (s.phase t).running → s.ran = [t] ∧ s.done = false
  /-- While the flag is clear, the thread that started `body` is still in it. -/
  pending : s.done = false → ∀ t ∈ s.ran, (s.phase t).running
  /-- The flag is set only once `body` has run. -/
  finished : s.done = true → s.ran ≠ []
  /-- A call on its way out with `true` is the one that ran `body`. -/
  won : ∀ t, (s.phase t).won → s.ran = [t]
  /-- A call on its way out has read the flag set, or set it. -/
  leaving : ∀ t, (s.phase t).leaving → s.done = true

omit [DecidableEq τ] in
theorem inv_init : Inv (init : Once τ) where
  critical _ h := by cases h
  ran_le := Nat.zero_le 1
  running _ h := by cases h
  pending _ _ h := by cases h
  finished h := by cases h
  won _ h := by cases h
  leaving _ h := by cases h

namespace Inv

variable (hi : Inv s)
include hi

/-- Two threads in their critical sections are one: the lock's mutual
    exclusion. -/
theorem critical_unique (hl : Reachable (SpinLock.step P) State.init s.lock) {t u : τ}
    (ht : (s.phase t).critical) (hu : (s.phase u).critical) : t = u :=
  (SpinLock.reachable_inv hl).one t u (by rw [hi.critical t ht]; rfl) (by rw [hi.critical u hu]; rfl)

/-- A step of `t` alone, to `p`: the invariant holds after it when `t` holds
    the lock if `p` is critical, starts no `body`, returns `true` only having
    run it, leaves only with the flag set, and stays in `body` while it has
    started it and the flag is clear. -/
theorem setPhase {t : τ} {p : Phase} (hcrit : p.critical → s.lock.pc t = .held)
    (hrun : p.running → (s.phase t).running) (hwon : p.won → s.ran = [t])
    (hleave : p.leaving → s.done = true) (hpend : s.done = false → t ∈ s.ran → p.running) :
    Inv (s.setPhase t p) where
  critical u hu := by
    by_cases hut : u = t
    · subst hut
      exact hcrit (by simpa using hu)
    · rw [setPhase_phase_of_ne _ _ hut] at hu
      exact hi.critical u hu
  ran_le := hi.ran_le
  running u hu := by
    by_cases hut : u = t
    · subst hut
      exact hi.running u (hrun (by simpa using hu))
    · rw [setPhase_phase_of_ne _ _ hut] at hu
      exact hi.running u hu
  pending hd v hv := by
    by_cases hvt : v = t
    · subst hvt
      simpa using hpend hd hv
    · rw [setPhase_phase_of_ne _ _ hvt]
      exact hi.pending hd v hv
  finished := hi.finished
  won u hu := by
    by_cases hut : u = t
    · subst hut
      exact hwon (by simpa using hu)
    · rw [setPhase_phase_of_ne _ _ hut] at hu
      exact hi.won u hu
  leaving u hu := by
    by_cases hut : u = t
    · subst hut
      exact hleave (by simpa using hu)
    · rw [setPhase_phase_of_ne _ _ hut] at hu
      exact hi.leaving u hu

omit [DecidableEq τ] in
/-- Whoever has started `body` while the flag is clear is running it. -/
theorem not_mem_ran {t : τ} (hd : s.done = false) (ht : (s.phase t).running = false) : t ∉ s.ran :=
  fun hm => by rw [hi.pending hd t hm] at ht; cases ht

/-- The second load reads the flag clear, and `t` starts `body`: no thread
    has started it, since it would be in its critical section with `t`. -/
theorem start (hl : Reachable (SpinLock.step P) State.init s.lock) {t : τ} (ht : s.phase t = .recheck)
    (hd : s.done = false) : Inv { s.setPhase t .body with ran := s.ran ++ [t] } := by
  have hcrit : (s.phase t).critical := by rw [ht]; rfl
  have hnil : s.ran = [] := List.eq_nil_iff_forall_not_mem.mpr fun v hv => by
    have hrun := hi.pending hd v hv
    have hvt := hi.critical_unique hl (Phase.running_critical hrun) hcrit
    rw [hvt, ht] at hrun
    cases hrun
  have hphase : ∀ u, u ≠ t → ({ s.setPhase t .body with ran := s.ran ++ [t] } : Once τ).phase u = s.phase u :=
    fun u hut => setPhase_phase_of_ne _ _ hut
  refine ⟨fun u hu => ?_, by simp [hnil], fun u hu => ?_, fun _ v hv => ?_, fun h => ?_, fun u hu => ?_,
    fun u hu => ?_⟩
  · by_cases hut : u = t
    · subst hut
      exact hi.critical u hcrit
    · rw [hphase u hut] at hu
      exact hi.critical u hu
  · by_cases hut : u = t
    · subst hut
      exact ⟨by simp [hnil], hd⟩
    · rw [hphase u hut] at hu
      rw [(hi.running u hu).1] at hnil
      cases hnil
  · simp only [hnil, List.nil_append, List.mem_singleton] at hv
    subst hv
    show ((s.setPhase v .body).phase v).running
    rw [setPhase_phase_self]
    rfl
  · change s.done = true at h
    rw [hd] at h
    cases h
  · by_cases hut : u = t
    · subst hut
      rw [show ({ s.setPhase u .body with ran := s.ran ++ [u] } : Once τ).phase u = .body from
        setPhase_phase_self _ _ _] at hu
      cases hu
    · rw [hphase u hut] at hu
      rw [hi.won u hu] at hnil
      cases hnil
  · by_cases hut : u = t
    · subst hut
      rw [show ({ s.setPhase u .body with ran := s.ran ++ [u] } : Once τ).phase u = .body from
        setPhase_phase_self _ _ _] at hu
      cases hu
    · rw [hphase u hut] at hu
      exact hi.leaving u hu

/-- The store after `body`: the flag is set, and `t`, the one thread that ran
    `body`, is on its way out with `true`. -/
theorem store (hl : Reachable (SpinLock.step P) State.init s.lock) {t : τ} (ht : s.phase t = .store) :
    Inv { s.setPhase t (.unlocking true) with done := true } := by
  have hrun : (s.phase t).running := by rw [ht]; rfl
  obtain ⟨hran, -⟩ := hi.running t hrun
  have hphase : ∀ u, ({ s.setPhase t (.unlocking true) with done := true } : Once τ).phase u =
      (s.setPhase t (.unlocking true)).phase u := fun _ => rfl
  refine ⟨fun u hu => ?_, hi.ran_le, fun u hu => ?_, fun h => ?_, fun _ => ?_, fun u hu => ?_,
    fun _ _ => rfl⟩
  · by_cases hut : u = t
    · subst hut
      rw [hphase, setPhase_phase_self] at hu
      cases hu
    · rw [hphase, setPhase_phase_of_ne _ _ hut] at hu
      exact hi.critical u hu
  · -- a second thread in `body` would share the lock with `t`
    by_cases hut : u = t
    · subst hut
      rw [hphase, setPhase_phase_self] at hu
      cases hu
    · rw [hphase, setPhase_phase_of_ne _ _ hut] at hu
      exact absurd (hi.critical_unique hl (Phase.running_critical hu) (Phase.running_critical hrun)) hut
  · cases h
  · show s.ran ≠ []
    rw [hran]
    exact List.cons_ne_nil t []
  · by_cases hut : u = t
    · subst hut
      exact hran
    · rw [hphase, setPhase_phase_of_ne _ _ hut] at hu
      exact hi.won u hu

/-- An action of the lock, by a thread in its `Lock` or its `Unlock`, moves
    no thread out of its critical section. -/
theorem lockStep {e : Event τ} {l : State τ} (hallow : (s.phase e.actor).allows e)
    (hl : SpinLock.step P s.lock e = some l) : Inv { s with lock := l } where
  critical u hu := by
    have hheld := hi.critical u hu
    have hne : u ≠ e.actor := fun h => by
      rw [h, Phase.critical_of_allows hallow] at hu
      cases hu
    rw [← hheld]
    exact step_pc_of_ne hl hne (by rw [hheld]; rfl)
  ran_le := hi.ran_le
  running := hi.running
  pending := hi.pending
  finished := hi.finished
  won := hi.won
  leaving := hi.leaving

/-- Every event keeps the invariant. -/
theorem step (hl : Reachable (SpinLock.step P) State.init s.lock) {e : OnceEvent τ}
    (h : Once.step P s e = some s') : Inv s' := by
  cases e with
  | call t =>
    rw [Once.step] at h
    -- the thread was outside, so not in `body`: it started none
    split_ifs at h with ht hd <;> cases h
    · exact hi.setPhase (fun h => by cases h) (fun h => by cases h) (fun h => by cases h) (fun _ => hd)
        fun hd' hm => absurd hm (hi.not_mem_ran hd' (Phase.running_of_outside ht))
    · exact hi.setPhase (fun h => by cases h) (fun h => by cases h) (fun h => by cases h)
        (fun h => by cases h) fun hd' hm => absurd hm (hi.not_mem_ran hd' (Phase.running_of_outside ht))
  | lock e =>
    rw [Once.step] at h
    split_ifs at h with hallow
    obtain ⟨l, hl', rfl⟩ := Option.map_eq_some_iff.mp h
    exact hi.lockStep hallow hl'
  | next t =>
    rw [Once.step] at h
    split at h
    · next hp =>
      -- `Lock` returned
      split_ifs at h with hheld
      cases h
      exact hi.setPhase (fun _ => hheld) (fun h => by cases h) (fun h => by cases h) (fun h => by cases h)
        fun hd hm => absurd hm (hi.not_mem_ran hd (by rw [hp]; rfl))
    · next hp =>
      -- the second load
      split_ifs at h with hd
      · cases h
        exact hi.setPhase (fun h => by cases h) (fun h => by cases h) (fun h => by cases h) (fun _ => hd)
          fun hd' => absurd (hd.symm.trans hd') (by decide)
      · cases h
        exact hi.start hl hp (Bool.eq_false_iff.mpr hd)
    · next hp =>
      -- `body` returns
      cases h
      exact hi.setPhase (fun _ => hi.critical t (by rw [hp]; rfl)) (fun _ => by rw [hp]; rfl)
        (fun h => by cases h) (fun h => by cases h) fun _ _ => rfl
    · next hp =>
      cases h
      exact hi.store hl hp
    · next r hp =>
      -- `Unlock` returned
      split_ifs at h
      cases h
      have hleave : (s.phase t).leaving := by rw [hp]; rfl
      exact hi.setPhase (fun h => by cases h) (fun h => by cases h)
        (fun h => hi.won t (by rw [hp]; cases r <;> exact h))
        (fun _ => hi.leaving t hleave)
        fun hd' => absurd (hd'.symm.trans (hi.leaving t hleave)) Bool.false_ne_true
    · cases h
    · cases h

end Inv

/-- The invariant holds in every state that an interleaving reaches. -/
theorem reachable_inv (hs : Reachable (step P) init s) : Inv s :=
  hs.invariant inv_init fun _ hs' hi he => hi.step (lock_reachable hs') he

/-- `TrivialOnce` runs `body` once: in every state that an interleaving of
    calls of `RunOnce` reaches, at most one call has started `body`; once a
    call has returned, `done_flag_` is set, `body` has run and no call is in
    it any more; and the call that returned `true` is the one that ran it. -/
theorem runOnce_once (hs : Reachable (step P) init s) :
    s.ran.length ≤ 1 ∧
      (∀ t r, s.phase t = .returned r → s.done = true ∧ s.ran ≠ [] ∧ ∀ u, (s.phase u).running = false) ∧
      ∀ t, s.phase t = .returned true → s.ran = [t] := by
  have hi := reachable_inv hs
  refine ⟨hi.ran_le, fun t r ht => ?_, fun t ht => hi.won t (by rw [ht]; rfl)⟩
  have hd := hi.leaving t (by rw [ht]; rfl)
  refine ⟨hd, hi.finished hd, fun u => Bool.eq_false_iff.mpr fun hu => ?_⟩
  rw [(hi.running u hu).2] at hd
  cases hd

/-- Thread `true` runs `RunOnce` on a uniprocessor: it takes the lock, reads
    the flag clear, runs `body`, sets the flag, unlocks and returns `true`;
    then thread `false` calls, reads the flag set, and returns `false`. -/
def twoCallsRun : List (OnceEvent Bool) :=
  [.call true, .lock (.lock true false), .next true, .next true, .next true, .next true,
    .lock (.unlock true), .next true, .call false]

/-- The state after `twoCallsRun`. -/
def twoCalls : Once Bool := (twoCallsRun.foldlM (step uniprocessor) init).getD init

example : twoCalls.phase true = .returned true ∧ twoCalls.phase false = .returned false ∧
    twoCalls.ran = [true] := by decide

theorem twoCalls_reachable : Reachable (step uniprocessor) init twoCalls :=
  Reachable.init.of_run twoCallsRun rfl

theorem runOnce_once_twoCalls :
    twoCalls.ran.length ≤ 1 ∧
      (∀ t r, twoCalls.phase t = .returned r →
        twoCalls.done = true ∧ twoCalls.ran ≠ [] ∧ ∀ u, (twoCalls.phase u).running = false) ∧
      ∀ t, twoCalls.phase t = .returned true → twoCalls.ran = [t] :=
  runOnce_once twoCalls_reachable

end Once

end SpinLock

end Gperftools
