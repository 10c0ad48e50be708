import Mathlib.Data.Nat.Bitwise
import Gperftools.Lib.Reach

/-!
# The spin lock

`SpinLock` (base/spinlock.h, base/spinlock.cc) is the lock of tcmalloc's
shared structures. Its word `lockword_` is `kSpinLockFree`, `kSpinLockHeld`
(locked) or `kSpinLockSleeper` (locked, and a thread may sleep on the word).
`Lock` tries one `compare_exchange_weak` from free to held; when that fails,
`SlowLock` spins on the word (`SpinLoop`), marks it as having a sleeper, and
sleeps on it with `FUTEX_WAIT` (base/spinlock_linux-inl.h) until it takes
it. A thread takes the lock in `SlowLock` only as `kSpinLockSleeper`. The
sleepers are not counted, so the thread that takes the lock this way becomes
the "designated waker". `Unlock` swaps free in and, if the word was not plain
held, wakes one sleeper with `FUTEX_WAKE`.

The model runs any number of threads. Each thread is at some point of these
functions (`Pc`), with the word and the futex's queue of sleepers
(`waiters`). An `Event` is the next atomic action of one thread, together
with the choices the hardware and the kernel make: a weak compare-and-swap
that fails spuriously, a wait that ends with no wake, which sleeper a wake
wakes. Memory is sequentially consistent.

* `mutual_exclusion`: in every state that an interleaving reaches, at most one
  thread holds the lock, and `IsHeld()` is true exactly when one does;
* `sleepers_woken`: while a thread sleeps on the word, someone will wake one:
  - the holder, at its `Unlock`, since the word is `kSpinLockSleeper`;
  - or a thread awake in `SlowLock`, which marks the word before it sleeps or
    takes the lock as `kSpinLockSleeper`;
  - or a thread at `Unlock`'s wake.
  No sleeper is forgotten.
* `spinLockDelay_timeout`: the timeout that `SpinLockDelay` hands to
  `FUTEX_WAIT` is a valid `timespec`, below a second, for every state of the
  generator and every iteration count.
-/

namespace Gperftools

namespace SpinLock

/-- The values of `lockword_`. -/
inductive Word
  /-- `kSpinLockFree`. -/
  | free
  /-- `kSpinLockHeld`: locked, no thread asleep. -/
  | held
  /-- `kSpinLockSleeper`: locked, a thread may be asleep on the word. -/
  | sleeper
  deriving DecidableEq, Repr

/-- Where a thread is in `Lock`, `TryLock` and `Unlock`. `n` is `SlowLock`'s
    `lock_wait_call_count`, and `c` is `SpinLoop`'s count of spins left. -/
inductive Pc
  /-- Outside the lock's code. -/
  | idle
  /-- In `SpinLoop`'s `while`, about to load the word. -/
  | spin (c n : ℕ)
  /-- At `SpinLoop`'s `compare_exchange_strong(free, sleeper)`. -/
  | spinCas (n : ℕ)
  /-- At the test of `SlowLock`'s loop, with `lock_value = v`. -/
  | loop (v : Word) (n : ℕ)
  /-- At `SlowLock`'s second `compare_exchange_strong(free, sleeper)`, after
      seeing the lock free. -/
  | retry (n : ℕ)
  /-- Asleep in `FUTEX_WAIT`. -/
  | asleep (n : ℕ)
  /-- `Lock` (or `TryLock`) returned with the lock. -/
  | held
  /-- In `Unlock`, at `SlowUnlock`'s `FUTEX_WAKE`. -/
  | wake
  deriving DecidableEq, Repr

namespace Pc

/-- The thread owns the lock: it has returned from `Lock`, or has taken the
    word in `SlowLock` and is about to leave the loop. -/
def owns : Pc → Bool
  | held => true
  | loop .free _ => true
  | _ => false

/-- The thread is awake in `SlowLock`, or at `Unlock`'s wake. -/
def busy : Pc → Bool
  | spin _ _ | spinCas _ | loop _ _ | retry _ | wake => true
  | _ => false

/-- The thread sleeps in `FUTEX_WAIT`. -/
def sleeping : Pc → Bool
  | asleep _ => true
  | _ => false

end Pc

/-- What the platform fixes when the library loads: `adaptive_spin_count`
    (1000 on a machine of more than one CPU, else 0) and whether the kernel
    has futexes (`have_futex`). -/
structure Platform where
  adaptiveSpinCount : ℕ
  haveFutex : Bool

/-- The lock and its threads `τ`: the word, where each thread is, and the
    futex's queue of the threads asleep on the word. -/
structure State (τ : Type*) where
  word : Word
  pc : τ → Pc
  waiters : List τ

/-- An atomic action of a thread, with the choices of the hardware and the
    kernel. -/
inductive Event (τ : Type*)
  /-- `t` calls `Lock`: `compare_exchange_weak(free, held)`, which may fail
      spuriously. -/
  | lock (t : τ) (spurious : Bool)
  /-- `t` calls `TryLock`. -/
  | tryLock (t : τ) (spurious : Bool)
  /-- `t`, holding the lock, calls `Unlock`: `exchange(free)`. -/
  | unlock (t : τ)
  /-- `t`'s next action in `SlowLock`, or its `FUTEX_WAKE` with no sleeper. -/
  | step (t : τ)
  /-- `t`'s `FUTEX_WAIT` returns with no wake (its timeout, or a signal). -/
  | timeout (t : τ)
  /-- `t`'s `FUTEX_WAKE` wakes `u`. -/
  | wake (t u : τ)

variable {τ : Type*}

/-- The thread whose action the event is. -/
def Event.actor : Event τ → τ
  | .lock t _ | .tryLock t _ | .unlock t | .step t | .timeout t | .wake t _ => t

namespace State

/-- `constexpr SpinLock() : lockword_(kSpinLockFree)`, no thread in its code. -/
def init : State τ := ⟨.free, fun _ => .idle, []⟩

variable [DecidableEq τ]

/-- `s` with thread `t` at `p`. -/
def setPc (s : State τ) (t : τ) (p : Pc) : State τ := { s with pc := Function.update s.pc t p }

@[simp] theorem setPc_pc_self (s : State τ) (t : τ) (p : Pc) : (s.setPc t p).pc t = p :=
  Function.update_self _ _ _

theorem setPc_pc_of_ne (s : State τ) {t u : τ} (p : Pc) (h : u ≠ t) : (s.setPc t p).pc u = s.pc u :=
  Function.update_of_ne h _ _

end State

variable [DecidableEq τ] (P : Platform)

open State

/-- The next atomic action of `t`, at `p` in `SlowLock`; `none` where `t` is
    not in `SlowLock`. -/
def slowStep (s : State τ) (t : τ) : Pc → Option (State τ)
  -- `while (lockword_.load() != kSpinLockFree && --c > 0) SpinlockPause();`
  | .spin c n =>
    if s.word ≠ .free ∧ 1 < c then some (s.setPc t (.spin (c - 1) n)) else some (s.setPc t (.spinCas n))
  -- `compare_exchange_strong(old = free, sleeper); return old;`
  | .spinCas n =>
    if s.word = .free then some { s.setPc t (.loop .free n) with word := .sleeper }
    else some (s.setPc t (.loop s.word n))
  -- the loop ends: `Lock` returns
  | .loop .free _ => some (s.setPc t .held)
  -- `compare_exchange_strong(lock_value = held, sleeper)`: on success the
  -- thread goes on to sleep as `kSpinLockSleeper`; on failure it sees free
  -- (and retries) or a sleeper (and sleeps)
  | .loop .held n =>
    if s.word = .held then some { s.setPc t (.loop .sleeper n) with word := .sleeper }
    else if s.word = .free then some (s.setPc t (.retry n))
    else some (s.setPc t (.loop .sleeper n))
  -- `SpinLockDelay(&lockword_, kSpinLockSleeper, ++lock_wait_call_count)`:
  -- `FUTEX_WAIT` sleeps only while the word is still `kSpinLockSleeper`;
  -- without futexes it is a `nanosleep`; then `lock_value = SpinLoop()`
  | .loop .sleeper n =>
    if P.haveFutex ∧ s.word = .sleeper then
      some { s.setPc t (.asleep (n + 1)) with waiters := s.waiters ++ [t] }
    else some (s.setPc t (.spin P.adaptiveSpinCount (n + 1)))
  -- `compare_exchange_strong(lock_value = free, sleeper); continue;`
  | .retry n =>
    if s.word = .free then some { s.setPc t (.loop .free n) with word := .sleeper }
    else some (s.setPc t (.loop s.word n))
  | .idle | .asleep _ | .held | .wake => none

/-- One atomic action; `none` where the thread is not at that point of the
    code, or the kernel would not do it. -/
def step (s : State τ) : Event τ → Option (State τ)
  -- `Lock`'s and `TryLock`'s `compare_exchange_weak(free, held)`
  | .lock t spurious =>
    if s.pc t = .idle then
      if s.word = .free ∧ spurious = false then some { s.setPc t .held with word := .held }
      else some (s.setPc t (.spin P.adaptiveSpinCount 0))
    else none
  | .tryLock t spurious =>
    if s.pc t = .idle then
      if s.word = .free ∧ spurious = false then some { s.setPc t .held with word := .held }
      else some s
    else none
  -- `prev_value = lockword_.exchange(kSpinLockFree); if (prev_value != kSpinLockHeld) SlowUnlock();`
  | .unlock t =>
    if s.pc t = .held then some { s.setPc t (if s.word = .held then .idle else .wake) with word := .free }
    else none
  | .step t =>
    match s.pc t with
    -- `FUTEX_WAKE` when no thread sleeps on the word, or no futexes
    | .wake => if P.haveFutex = false ∨ s.waiters = [] then some (s.setPc t .idle) else none
    | p => slowStep P s t p
  | .timeout t =>
    match s.pc t with
    | .asleep n => some { s.setPc t (.spin P.adaptiveSpinCount n) with waiters := s.waiters.erase t }
    | _ => none
  | .wake t u =>
    if s.pc t = .wake ∧ P.haveFutex = true ∧ u ∈ s.waiters then
      match s.pc u with
      | .asleep n =>
        some { (s.setPc t .idle).setPc u (.spin P.adaptiveSpinCount n) with waiters := s.waiters.erase u }
      | _ => none
    else none

/-- `IsHeld()`. -/
def isHeld (s : State τ) : Bool := s.word != .free

/-! ## What one action does -/

/-- The actions, by what they do to the lock (`step_move`). -/
inductive Move (s : State τ) : State τ → Prop
  /-- `Lock` or `TryLock` takes the free word. -/
  | take (t : τ) : s.pc t = .idle → s.word = .free → Move s { s.setPc t .held with word := .held }
  /-- A thread enters `SlowLock`, or moves in it, without taking the word or
      sleeping. -/
  | spin (t : τ) (p : Pc) : s.pc t = .idle ∨ (s.pc t).busy ∧ (s.pc t).owns = false →
      p.busy → p.owns = false → Move s (s.setPc t p)
  /-- `TryLock` fails. -/
  | stay : Move s s
  /-- `Unlock`'s exchange: free in, and on to wake a sleeper unless the word
      was plain held. -/
  | release (t : τ) : s.pc t = .held →
      Move s { s.setPc t (if s.word = .held then .idle else .wake) with word := .free }
  /-- `Unlock`'s `FUTEX_WAKE` when no thread sleeps, or with no futexes. -/
  | wakeNone (t : τ) : s.pc t = .wake → P.haveFutex = false ∨ s.waiters = [] → Move s (s.setPc t .idle)
  /-- A sleeper's `FUTEX_WAIT` returns by itself. -/
  | timeout (t : τ) (n : ℕ) : s.pc t = .asleep n →
      Move s { s.setPc t (.spin P.adaptiveSpinCount n) with waiters := s.waiters.erase t }
  /-- `Unlock`'s `FUTEX_WAKE` wakes the sleeper `u`. -/
  | wake (t u : τ) (n : ℕ) : s.pc t = .wake → u ∈ s.waiters → s.pc u = .asleep n →
      Move s { (s.setPc t .idle).setPc u (.spin P.adaptiveSpinCount n) with waiters := s.waiters.erase u }
  /-- `SlowLock` takes the free word as `kSpinLockSleeper`. -/
  | grab (t : τ) (n : ℕ) : s.pc t = .spinCas n ∨ s.pc t = .retry n → s.word = .free →
      Move s { s.setPc t (.loop .free n) with word := .sleeper }
  /-- `SlowLock` leaves its loop with the word it took. -/
  | leave (t : τ) (n : ℕ) : s.pc t = .loop .free n → Move s (s.setPc t .held)
  /-- `SlowLock` marks the held word as having a sleeper. -/
  | mark (t : τ) (n : ℕ) : s.pc t = .loop .held n → s.word = .held →
      Move s { s.setPc t (.loop .sleeper n) with word := .sleeper }
  /-- `FUTEX_WAIT` on a word still marked: the thread sleeps. -/
  | sleep (t : τ) (n : ℕ) : s.pc t = .loop .sleeper n → P.haveFutex = true → s.word = .sleeper →
      Move s { s.setPc t (.asleep (n + 1)) with waiters := s.waiters ++ [t] }

variable {P} {s s' : State τ}

theorem slowStep_move {t : τ} (h : slowStep P s t (s.pc t) = some s') : Move P s s' := by
  cases hp : s.pc t with
  | spin c n =>
    rw [hp, slowStep] at h
    split_ifs at h <;> cases h <;> exact .spin t _ (.inr (by simp [hp, Pc.busy, Pc.owns])) rfl rfl
  | spinCas n =>
    rw [hp, slowStep] at h
    split_ifs at h with hw
    · cases h
      exact .grab t n (.inl hp) hw
    · cases h
      refine .spin t _ (.inr (by simp [hp, Pc.busy, Pc.owns])) rfl ?_
      cases hw' : s.word <;> simp_all [Pc.owns]
  | loop v n =>
    cases v with
    | free =>
      rw [hp, slowStep] at h
      cases h
      exact .leave t n hp
    | held =>
      rw [hp, slowStep] at h
      split_ifs at h with hw hw'
      · cases h
        exact .mark t n hp hw
      all_goals cases h; exact .spin t _ (.inr (by simp [hp, Pc.busy, Pc.owns])) rfl rfl
    | sleeper =>
      rw [hp, slowStep] at h
      split_ifs at h with hw
      · cases h
        exact .sleep t n hp (by simpa using hw.1) hw.2
      · cases h
        exact .spin t _ (.inr (by simp [hp, Pc.busy, Pc.owns])) rfl rfl
  | retry n =>
    rw [hp, slowStep] at h
    split_ifs at h with hw
    · cases h
      exact .grab t n (.inr hp) hw
    · cases h
      refine .spin t _ (.inr (by simp [hp, Pc.busy, Pc.owns])) rfl ?_
      cases hw' : s.word <;> simp_all [Pc.owns]
  | idle | asleep _ | held | wake => rw [hp, slowStep] at h; cases h

/-- Every action is one of the `Move`s. -/
theorem step_move {e : Event τ} (h : step P s e = some s') : Move P s s' := by
  cases e with
  | lock t spurious =>
    rw [step] at h
    split_ifs at h with hi hw
    · cases h
      exact .take t hi hw.1
    · cases h
      exact .spin t _ (.inl hi) rfl rfl
  | tryLock t spurious =>
    rw [step] at h
    split_ifs at h with hi hw
    · cases h
      exact .take t hi hw.1
    · cases h
      exact .stay
  | unlock t =>
    rw [step] at h
    by_cases hi : s.pc t = .held
    · rw [if_pos hi] at h
      cases h
      exact .release t hi
    · rw [if_neg hi] at h
      cases h
  | step t =>
    rw [step] at h
    split at h
    · next hp =>
      split_ifs at h with hw
      cases h
      exact .wakeNone t hp hw
    · exact slowStep_move h
  | timeout t =>
    rw [step] at h
    split at h
    · next n hp =>
      cases h
      exact .timeout t n hp
    · cases h
  | wake t u =>
    rw [step] at h
    split_ifs at h with hi
    split at h
    · next n hu =>
      cases h
      exact .wake t u n hi.1 hi.2.2 hu
    · cases h

/-- An action of `t` in `SlowLock` moves no other thread. -/
theorem slowStep_pc_of_ne {t v : τ} {p : Pc} (h : slowStep P s t p = some s') (hv : v ≠ t) :
    s'.pc v = s.pc v := by
  cases p with
  | loop w n =>
    cases w <;> rw [slowStep] at h <;> (try split_ifs at h) <;> cases h <;> exact s.setPc_pc_of_ne _ hv
  | idle | asleep _ | held | wake => cases h
  | _ => rw [slowStep] at h; split_ifs at h <;> cases h <;> exact s.setPc_pc_of_ne _ hv

/-- An action moves its own thread, and no other but a sleeper it wakes. -/
theorem step_pc_of_ne {e : Event τ} {v : τ} (h : step P s e = some s') (hv : v ≠ e.actor)
    (hs : (s.pc v).sleeping = false) : s'.pc v = s.pc v := by
  cases e with
  | step t =>
    rw [step] at h
    split at h
    · split_ifs at h
      cases h
      exact s.setPc_pc_of_ne _ hv
    · exact slowStep_pc_of_ne h hv
  | timeout t =>
    rw [step] at h
    split at h
    · cases h
      exact s.setPc_pc_of_ne _ hv
    · cases h
  | wake t u =>
    rw [step] at h
    split_ifs at h
    split at h
    · next n hu =>
      cases h
      have hvu : v ≠ u := by
        rintro rfl
        rw [hu] at hs
        cases hs
      show Function.update (Function.update s.pc t _) u _ v = s.pc v
      rw [Function.update_of_ne hvu, Function.update_of_ne (show v ≠ t from hv)]
    · cases h
  | _ =>
    rw [step] at h
    split_ifs at h <;> cases h <;> first | rfl | exact s.setPc_pc_of_ne _ hv

/-! ## The invariant -/

/-- Who owns the lock, read off the word and where the threads are. -/
structure Owned (w : Word) (pc : τ → Pc) : Prop where
  /-- At most one thread owns the lock. -/
  one : ∀ t u, (pc t).owns → (pc u).owns → t = u
  /-- The word is free exactly when no thread owns the lock. -/
  free_iff : w = .free ↔ ∀ t, (pc t).owns = false
  /-- A thread that took the word in `SlowLock` took it as
      `kSpinLockSleeper`, and only it can change the word. -/
  marked : ∀ t n, pc t = .loop .free n → w = .sleeper

namespace Owned

variable {w w' : Word} {pc : τ → Pc} (ho : Owned w pc)
include ho

omit [DecidableEq τ] in
theorem no_owner (hw : w = .free) (t : τ) : (pc t).owns = false :=
  ho.free_iff.mp hw t

omit [DecidableEq τ] in
theorem other {t v : τ} (ht : (pc t).owns) (hv : v ≠ t) : (pc v).owns = false := by
  cases h : (pc v).owns
  · rfl
  · exact absurd (ho.one v t h ht) hv

/-- A thread moves between points where it does not own the lock; the word
    may change, but not to or from free. -/
theorem update {t : τ} {p : Pc} (ht : (pc t).owns = false) (hp : p.owns = false)
    (hfree : w' = .free ↔ w = .free) (hm : w = .sleeper → w' = .sleeper) :
    Owned w' (Function.update pc t p) := by
  have hpc : ∀ v, v ≠ t → Function.update pc t p v = pc v := fun v hv => Function.update_of_ne hv _ _
  refine ⟨fun v u hv hu => ?_, ?_, fun v n hv => ?_⟩
  · have hvt : v ≠ t := by
      rintro rfl
      rw [Function.update_self, hp] at hv
      cases hv
    have hut : u ≠ t := by
      rintro rfl
      rw [Function.update_self, hp] at hu
      cases hu
    exact ho.one v u (hpc v hvt ▸ hv) (hpc u hut ▸ hu)
  · rw [hfree, ho.free_iff]
    refine forall_congr' fun v => ?_
    by_cases hvt : v = t
    · subst hvt
      rw [Function.update_self, ht, hp]
    · rw [hpc v hvt]
  · have hvt : v ≠ t := by
      rintro rfl
      rw [Function.update_self] at hv
      subst hv
      cases hp
    exact hm (ho.marked v n (hpc v hvt ▸ hv))

/-- A thread takes the free word: it becomes the only owner. -/
theorem acquire {t : τ} {p : Pc} (hw : w = .free) (hp : p.owns) (hw' : w' ≠ .free)
    (hm : ∀ n, p = .loop .free n → w' = .sleeper) : Owned w' (Function.update pc t p) := by
  -- no other thread owned the lock
  have hown : ∀ v, (Function.update pc t p v).owns → v = t := fun v hv => by
    by_contra hvt
    rw [Function.update_of_ne hvt, ho.no_owner hw v] at hv
    cases hv
  refine ⟨fun v u hv hu => (hown v hv).trans (hown u hu).symm, iff_of_false hw' fun h => ?_,
    fun v n hv => ?_⟩
  · have := h t
    rw [Function.update_self, hp] at this
    cases this
  · have hvt := hown v (by rw [hv]; rfl)
    subst hvt
    exact hm n (by rwa [Function.update_self] at hv)

/-- The owner lets the word go: nobody owns the lock. -/
theorem release {t : τ} {p : Pc} (ht : (pc t).owns) (hp : p.owns = false) :
    Owned .free (Function.update pc t p) := by
  have hnone : ∀ v, (Function.update pc t p v).owns = false := fun v => by
    by_cases hvt : v = t
    · subst hvt
      rw [Function.update_self, hp]
    · rw [Function.update_of_ne hvt, ho.other ht hvt]
  refine ⟨fun v _ hv _ => ?_, iff_of_true rfl hnone, fun v n hv => ?_⟩
  · rw [hnone v] at hv
    cases hv
  · have := hnone v
    rw [hv] at this
    cases this

/-- The owner that took the word in `SlowLock` leaves the loop with it. -/
theorem leave {t : τ} {n : ℕ} (ht : pc t = .loop .free n) : Owned w (Function.update pc t .held) := by
  have hpc : ∀ v, v ≠ t → Function.update pc t .held v = pc v := fun v hv => Function.update_of_ne hv _ _
  have howns : ∀ v, (Function.update pc t .held v).owns = (pc v).owns := fun v => by
    by_cases hvt : v = t
    · subst hvt
      rw [Function.update_self, ht]
      rfl
    · rw [hpc v hvt]
  refine ⟨fun v u hv hu => ho.one v u (howns v ▸ hv) (howns u ▸ hu), ?_, fun v m hv => ?_⟩
  · simp only [howns, ho.free_iff]
  · have hvt : v ≠ t := by
      rintro rfl
      rw [Function.update_self] at hv
      cases hv
    exact ho.marked v m (hpc v hvt ▸ hv)

end Owned

theorem Pc.sleeping_eq_false_of_busy {p : Pc} (hp : p.busy) : p.sleeping = false := by
  cases p <;> first | rfl | cases hp

/-- When a thread moves between points where it does not sleep, the queue
    still holds the sleepers. -/
theorem waiters_update {pc : τ → Pc} {l : List τ} (hl : ∀ v, v ∈ l ↔ (pc v).sleeping) {t : τ} {p : Pc}
    (ht : (pc t).sleeping = false) (hp : p.sleeping = false) (v : τ) :
    v ∈ l ↔ (Function.update pc t p v).sleeping := by
  by_cases hvt : v = t
  · subst hvt
    rw [Function.update_self, hp, hl, ht]
  · rw [Function.update_of_ne hvt, hl]

/-- A sleeper that wakes leaves the queue. -/
theorem waiters_erase {pc : τ → Pc} {l : List τ} (hl : ∀ v, v ∈ l ↔ (pc v).sleeping) (hnd : l.Nodup)
    {t : τ} {p : Pc} (hp : p.sleeping = false) (v : τ) :
    v ∈ l.erase t ↔ (Function.update pc t p v).sleeping := by
  rw [hnd.mem_erase_iff]
  by_cases hvt : v = t
  · subst hvt
    rw [Function.update_self, hp]
    simp
  · rw [Function.update_of_ne hvt, hl]
    exact and_iff_right hvt

/-- A busy thread other than `t` stays busy when `t` moves. -/
theorem busy_update {pc : τ → Pc} {t u : τ} {p : Pc} (hu : (pc u).busy) (hut : u ≠ t) :
    ∃ v, (Function.update pc t p v).busy :=
  ⟨u, by rwa [Function.update_of_ne hut]⟩

variable (P) in
/-- What the lock keeps true in every reachable state: who owns it, and the
    futex's queue. -/
structure Inv (s : State τ) : Prop extends Owned s.word s.pc where
  /-- The futex's queue holds the sleeping threads, each once. -/
  waiters_iff : ∀ t, t ∈ s.waiters ↔ (s.pc t).sleeping
  nodup : s.waiters.Nodup
  /-- Without futexes, nobody sleeps. -/
  futex : P.haveFutex = false → s.waiters = []
  /-- While a thread sleeps, the word is marked, or a thread is awake in
      `SlowLock` or at `Unlock`'s wake. -/
  woken : s.waiters ≠ [] → s.word = .sleeper ∨ ∃ u, (s.pc u).busy

omit [DecidableEq τ] in
theorem inv_init : Inv P (State.init : State τ) where
  one _ _ h := absurd h Bool.false_ne_true
  free_iff := iff_of_true rfl fun _ => rfl
  marked _ _ h := by cases h
  waiters_iff _ := iff_of_false List.not_mem_nil Bool.false_ne_true
  nodup := List.nodup_nil
  futex _ := rfl
  woken h := absurd rfl h

namespace Inv

variable (hi : Inv P s)
include hi

/-- `Lock` or `TryLock` takes the free word. -/
theorem take {t : τ} (ht : s.pc t = .idle) (hw : s.word = .free) :
    Inv P { s.setPc t .held with word := .held } where
  toOwned := hi.acquire hw rfl (by simp) fun _ h => by cases h
  waiters_iff := waiters_update hi.waiters_iff (by rw [ht]; rfl) rfl
  nodup := hi.nodup
  futex := hi.futex
  woken hq := by
    -- the word was free, so a thread other than `t` was busy
    obtain hs | ⟨u, hu⟩ := hi.woken hq
    · rw [hw] at hs
      cases hs
    · exact .inr (busy_update hu fun e => by rw [e, ht] at hu; cases hu)

theorem spin {t : τ} {p : Pc} (ht : s.pc t = .idle ∨ (s.pc t).busy ∧ (s.pc t).owns = false)
    (hp : p.busy) (hpo : p.owns = false) : Inv P (s.setPc t p) where
  toOwned := hi.update (by rcases ht with ht | ht; exacts [by rw [ht]; rfl, ht.2]) hpo Iff.rfl id
  waiters_iff := waiters_update hi.waiters_iff
    (by rcases ht with ht | ht; exacts [by rw [ht]; rfl, Pc.sleeping_eq_false_of_busy ht.1])
    (Pc.sleeping_eq_false_of_busy hp)
  nodup := hi.nodup
  futex := hi.futex
  woken _ := .inr ⟨t, by rwa [setPc_pc_self]⟩

theorem release {t : τ} (ht : s.pc t = .held) :
    Inv P { s.setPc t (if s.word = .held then .idle else .wake) with word := .free } where
  toOwned := hi.toOwned.release (by rw [ht]; rfl) (by split_ifs <;> rfl)
  waiters_iff := waiters_update hi.waiters_iff (by rw [ht]; rfl) (by split_ifs <;> rfl)
  nodup := hi.nodup
  futex := hi.futex
  woken hq := by
    -- from a plain held word another thread was busy; else `t` goes on to wake
    by_cases hw : s.word = .held
    · obtain hs | ⟨u, hu⟩ := hi.woken hq
      · rw [hw] at hs
        cases hs
      · exact .inr (busy_update hu fun e => by rw [e, ht] at hu; cases hu)
    · refine .inr ⟨t, ?_⟩
      show (Function.update s.pc t _ t).busy
      rw [Function.update_self, if_neg hw]
      rfl

theorem wakeNone {t : τ} (ht : s.pc t = .wake) (hq : P.haveFutex = false ∨ s.waiters = []) :
    Inv P (s.setPc t .idle) where
  toOwned := hi.update (by rw [ht]; rfl) rfl Iff.rfl id
  waiters_iff := waiters_update hi.waiters_iff (by rw [ht]; rfl) rfl
  nodup := hi.nodup
  futex := hi.futex
  woken hne := absurd (hq.elim hi.futex id) hne

theorem timeout {t : τ} {n : ℕ} (ht : s.pc t = .asleep n) :
    Inv P { s.setPc t (.spin P.adaptiveSpinCount n) with waiters := s.waiters.erase t } where
  toOwned := hi.update (by rw [ht]; rfl) rfl Iff.rfl id
  waiters_iff := waiters_erase hi.waiters_iff hi.nodup rfl
  nodup := hi.nodup.erase t
  futex hf := by
    show s.waiters.erase t = []
    rw [hi.futex hf]
    rfl
  woken _ := .inr ⟨t, by rw [setPc_pc_self]; rfl⟩

theorem wake {t u : τ} {n : ℕ} (ht : s.pc t = .wake) (hu : s.pc u = .asleep n) :
    Inv P { (s.setPc t .idle).setPc u (.spin P.adaptiveSpinCount n) with waiters := s.waiters.erase u } where
  toOwned := by
    have hut : u ≠ t := fun e => by rw [e, ht] at hu; cases hu
    have h₁ := hi.update (p := .idle) (by rw [ht]; rfl) rfl Iff.rfl id
    exact h₁.update (by rw [Function.update_of_ne hut, hu]; rfl) rfl Iff.rfl id
  waiters_iff := by
    have hut : u ≠ t := fun e => by rw [e, ht] at hu; cases hu
    exact waiters_erase (waiters_update hi.waiters_iff (by rw [ht]; rfl) rfl) hi.nodup rfl
  nodup := hi.nodup.erase u
  futex hf := by
    show s.waiters.erase u = []
    rw [hi.futex hf]
    rfl
  woken _ := .inr ⟨u, by rw [setPc_pc_self]; rfl⟩

theorem grab {t : τ} {n : ℕ} (ht : s.pc t = .spinCas n ∨ s.pc t = .retry n) (hw : s.word = .free) :
    Inv P { s.setPc t (.loop .free n) with word := .sleeper } where
  toOwned := hi.acquire hw rfl (by simp) fun _ _ => rfl
  waiters_iff := waiters_update hi.waiters_iff (by rcases ht with ht | ht <;> rw [ht] <;> rfl) rfl
  nodup := hi.nodup
  futex := hi.futex
  woken _ := .inl rfl

theorem leave {t : τ} {n : ℕ} (ht : s.pc t = .loop .free n) : Inv P (s.setPc t .held) where
  toOwned := hi.toOwned.leave ht
  waiters_iff := waiters_update hi.waiters_iff (by rw [ht]; rfl) rfl
  nodup := hi.nodup
  futex := hi.futex
  woken _ := .inl (hi.marked t n ht)

theorem mark {t : τ} {n : ℕ} (ht : s.pc t = .loop .held n) (hw : s.word = .held) :
    Inv P { s.setPc t (.loop .sleeper n) with word := .sleeper } where
  toOwned := hi.update (by rw [ht]; rfl) rfl (by simp [hw]) fun _ => rfl
  waiters_iff := waiters_update hi.waiters_iff (by rw [ht]; rfl) rfl
  nodup := hi.nodup
  futex := hi.futex
  woken _ := .inl rfl

theorem sleep {t : τ} {n : ℕ} (ht : s.pc t = .loop .sleeper n) (hf : P.haveFutex = true)
    (hw : s.word = .sleeper) :
    Inv P { s.setPc t (.asleep (n + 1)) with waiters := s.waiters ++ [t] } where
  toOwned := hi.update (by rw [ht]; rfl) rfl Iff.rfl id
  waiters_iff v := by
    show v ∈ s.waiters ++ [t] ↔ (Function.update s.pc t _ v).sleeping
    by_cases hvt : v = t
    · subst hvt
      rw [Function.update_self]
      simp [Pc.sleeping]
    · rw [Function.update_of_ne hvt, List.mem_append, List.mem_singleton, or_iff_left hvt,
        hi.waiters_iff]
  nodup := by
    have hnot : t ∉ s.waiters := by
      rw [hi.waiters_iff, ht]
      exact Bool.false_ne_true
    exact List.nodup_append.mpr ⟨hi.nodup, List.nodup_cons.mpr ⟨List.not_mem_nil, List.nodup_nil⟩,
      fun a ha b hb => by rw [List.mem_singleton] at hb; subst hb; rintro rfl; exact hnot ha⟩
  futex hf' := absurd (hf.symm.trans hf') (by decide)
  woken _ := .inl hw

/-- Every action keeps the invariant. -/
theorem move (hm : Move P s s') : Inv P s' := by
  cases hm with
  | take t ht hw => exact hi.take ht hw
  | spin t p ht hp hpo => exact hi.spin ht hp hpo
  | stay => exact hi
  | release t ht => exact hi.release ht
  | wakeNone t ht hq => exact hi.wakeNone ht hq
  | timeout t n ht => exact hi.timeout ht
  | wake t u n ht _ hu => exact hi.wake ht hu
  | grab t n ht hw => exact hi.grab ht hw
  | leave t n ht => exact hi.leave ht
  | mark t n ht hw => exact hi.mark ht hw
  | sleep t n ht hf hw => exact hi.sleep ht hf hw

end Inv

/-- The invariant holds in every state that an interleaving reaches. -/
theorem reachable_inv {s : State τ} (hs : Reachable (step P) State.init s) : Inv P s :=
  hs.invariant inv_init fun _ _ hi he => hi.move (step_move he)

/-! ## Safety over every interleaving -/

/-- Mutual exclusion: in every state that an interleaving of calls of `Lock`,
    `TryLock` and `Unlock` reaches, at most one thread owns the lock, and
    `IsHeld()` is true exactly when one does. -/
theorem mutual_exclusion {s : State τ} (hs : Reachable (step P) State.init s) :
    (∀ t u, (s.pc t).owns → (s.pc u).owns → t = u) ∧ (isHeld s = true ↔ ∃ t, (s.pc t).owns) := by
  have hi := reachable_inv hs
  refine ⟨hi.one, ?_⟩
  rw [isHeld, bne_iff_ne, ne_eq, hi.free_iff]
  simp only [not_forall, Bool.not_eq_false]

/-- No sleeper is forgotten: while a thread sleeps on the word, the lock is
    owned with the word marked `kSpinLockSleeper`, so that its `Unlock` wakes
    a sleeper; or some thread is awake in `SlowLock` or at `Unlock`'s wake. -/
theorem sleepers_woken {s : State τ} (hs : Reachable (step P) State.init s) {t : τ} {n : ℕ}
    (ht : s.pc t = .asleep n) : (∃ u, (s.pc u).owns ∧ s.word = .sleeper) ∨ ∃ u, (s.pc u).busy := by
  have hi := reachable_inv hs
  have hq : s.waiters ≠ [] := List.ne_nil_of_mem ((hi.waiters_iff t).mpr (by rw [ht]; rfl))
  rcases hi.woken hq with hw | hb
  · -- a marked word is not free, so some thread owns the lock
    have hown : ¬ ∀ u, (s.pc u).owns = false := fun h => by
      rw [← hi.free_iff, hw] at h
      cases h
    push Not at hown
    obtain ⟨u, hu⟩ := hown
    exact .inl ⟨u, by simpa using hu, hw⟩
  · exact .inr hb

/-- A machine of one CPU (`adaptive_spin_count = 0`) with futexes. -/
def uniprocessor : Platform := ⟨0, true⟩

/-- Thread `true` takes the lock; thread `false` fails `Lock`'s first try,
    spins once, marks the word and falls asleep on it. -/
def contendedRun : List (Event Bool) :=
  [.lock true false, .lock false false, .step false, .step false, .step false, .step false]

/-- The state after `contendedRun`. -/
def contended : State Bool := (contendedRun.foldlM (step uniprocessor) State.init).getD State.init

theorem contended_reachable : Reachable (step uniprocessor) State.init contended :=
  Reachable.init.of_run contendedRun rfl

example : contended.pc false = .asleep 1 ∧ contended.word = .sleeper := by decide

theorem mutual_exclusion_contended :
    (∀ t u, (contended.pc t).owns → (contended.pc u).owns → t = u) ∧
      (isHeld contended = true ↔ ∃ t, (contended.pc t).owns) :=
  mutual_exclusion contended_reachable

theorem sleepers_woken_contended :
    (∃ u, (contended.pc u).owns ∧ contended.word = .sleeper) ∨ ∃ u, (contended.pc u).busy :=
  sleepers_woken contended_reachable (t := false) (n := 1) (by decide)

/-! ## The timeout of a wait -/

/-- `SuggestedDelayNS(loop)` (base/spinlock_internal.cc): one step of the
    generator `rand`, with the numbers of `nrand48()` in 64-bit arithmetic,
    and the delay in nanoseconds drawn from its top bits, longer for later
    iterations: the new state and the delay. -/
def suggestedDelayNS (rand : ℕ) (loop : ℤ) : ℕ × ℕ :=
  let r := (0x5deece66d * rand + 0xb) % 2 ^ 64
  -- limit loop to 0..32
  let loop := if loop < 0 ∨ 32 < loop then 32 else loop.toNat
  (r, (r <<< 16 % 2 ^ 64) >>> (44 - (loop >>> 3)))

/-- The `tv_nsec` of the timeout of `SpinLockDelay(w, value, loop)` for
    `loop != 0`, with the generator's next state: the suggested delay times
    16 on the futex path, else `2000001`. -/
def spinLockDelayNS (haveFutex : Bool) (rand : ℕ) (loop : ℤ) : ℕ × ℕ :=
  if haveFutex then ((suggestedDelayNS rand loop).1, (suggestedDelayNS rand loop).2 * 16)
  else (rand, 2000001)

theorem suggestedDelayNS_lt (rand : ℕ) (loop : ℤ) : (suggestedDelayNS rand loop).2 < 2 ^ 24 := by
  simp only [suggestedDelayNS]
  generalize hk : (if loop < 0 ∨ 32 < loop then 32 else loop.toNat) = k
  have hk32 : k ≤ 32 := by
    rw [← hk]
    split_ifs with h
    · exact le_rfl
    · push Not at h
      omega
  -- the shift is by `44 - k / 8 ≥ 40` bits of a word of 64
  have hshift : k >>> 3 ≤ 4 := by
    rw [Nat.shiftRight_eq_div_pow]
    omega
  rw [Nat.shiftRight_eq_div_pow, Nat.div_lt_iff_lt_mul (Nat.two_pow_pos _), ← pow_add]
  calc _ < 2 ^ 64 := Nat.mod_lt _ (Nat.two_pow_pos _)
    _ ≤ 2 ^ (24 + (44 - k >>> 3)) := Nat.pow_le_pow_right (by decide) (by omega)

/-- The timeout that `SpinLockDelay` hands to the kernel is a valid
    `timespec`: below a second, for every state of the generator and every
    iteration count. -/
theorem spinLockDelay_timeout (haveFutex : Bool) (rand : ℕ) (loop : ℤ) :
    (spinLockDelayNS haveFutex rand loop).2 < 10 ^ 9 := by
  unfold spinLockDelayNS
  split_ifs
  · have := suggestedDelayNS_lt rand loop
    dsimp only
    omega
  · show 2000001 < 10 ^ 9
    decide

end SpinLock

end Gperftools
