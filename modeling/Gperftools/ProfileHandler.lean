import Mathlib.Data.List.Basic
import Mathlib.Data.Nat.Basic
import Gperftools.Lib.Word

/-!
# Profile handler registration

`ProfileHandler` (profile-handler.cc) runs the callbacks of the CPU profiler
on the profiling signal. `RegisterCallback` appends a new token to
`callbacks_` and counts it in `callback_count_`; `UnregisterCallback` rebuilds
the list without the token and `Reset` empties it. The interval timer runs
while there are callbacks: `UpdateTimer(enable)` calls `setitimer` only when
`enable` differs from the cached `timer_running_`, unless per-thread timers
are on, which are never stopped. When another handler owns the signal,
the constructor clears `allowed_`, and `RegisterThread` does nothing.

The tokens are the addresses `new ProfileHandlerToken` returns: the model
hands out `nextToken` and counts up, so a token is never one of the tokens
outstanding. The calls to `setitimer` are kept, as their `interval_usec`.

* `Inv.run`, `run_create`: along every sequence of `RegisterThread`,
  `RegisterCallback`, `UnregisterCallback` on an outstanding token and
  `Reset`, nothing crashes, the callbacks are the outstanding tokens
  (`registryStep`), each once, in the order they were registered,
  `callback_count_` is their number, and without per-thread timers
  `timer_running_` says whether there is one.
* `registerCallback_starts_timer`: `RegisterCallback` does not look at
  `allowed_`: with another handler on the signal, the first callback
  registered still starts the interval timer.
-/

namespace Gperftools

/-- `ProfileHandler::kMaxFrequency`. -/
def kMaxFrequency : ℕ := 4000

/-- `ProfileHandler::kDefaultFrequency`. -/
def kDefaultFrequency : ℕ := 100

/-- `kMillion` of `UpdateTimer`. -/
def kMillion : ℕ := 1000000

/-- The state of `ProfileHandler` that registration reads and writes. -/
structure ProfileHandler where
  /-- `callbacks_`: the tokens, the first registered first. -/
  callbacks : List ℕ
  /-- `callback_count_`. -/
  callbackCount : ℕ
  /-- `timer_running_`. -/
  timerRunning : Bool
  /-- `allowed_`: no other handler owns the profiling signal. -/
  allowed : Bool
  /-- `per_thread_timer_enabled_`. -/
  perThreadTimerEnabled : Bool
  /-- `frequency_`. -/
  frequency : ℕ
  /-- The token the next `new ProfileHandlerToken` returns. -/
  nextToken : ℕ
  /-- The calls to `setitimer`, as their `interval_usec`, in order. -/
  setitimer : List ℕ
  /-- The calls to `StartLinuxThreadTimer`. -/
  threadTimers : ℕ

namespace ProfileHandler

/-- `ProfileHandler()`, given what it reads: `CPUPROFILE_FREQUENCY` as
    `sscanf(fr, "%u%c", &frequency_, &junk)` stored it in the `int32_t`
    `frequency_` when it read exactly one number (`none` otherwise), whether
    per-thread timers were asked for and `timer_create` is linked, and
    whether the signal's handler is `SIG_IGN` or `SIG_DFL`. -/
def create (frequencyEnv : Option ℕ) (perThread handlerAvailable : Bool) : ProfileHandler :=
  let frequency := match frequencyEnv with
    | some f => if 0 < Word.signed 32 f then min (Word.signed 32 f).toNat kMaxFrequency
      else kDefaultFrequency
    | none => kDefaultFrequency
  let h : ProfileHandler := ⟨[], 0, false, true, perThread, frequency, 0, [], 0⟩
  -- something else using the signal handler has priority: stop
  if handlerAvailable then h else { h with allowed := false }

section Create

variable (frequencyEnv : Option ℕ) (perThread handlerAvailable : Bool)

@[simp] theorem create_callbacks : (create frequencyEnv perThread handlerAvailable).callbacks = [] := by
  cases handlerAvailable <;> rfl

@[simp] theorem create_nextToken : (create frequencyEnv perThread handlerAvailable).nextToken = 0 := by
  cases handlerAvailable <;> rfl

@[simp] theorem create_perThreadTimerEnabled :
    (create frequencyEnv perThread handlerAvailable).perThreadTimerEnabled = perThread := by
  cases handlerAvailable <;> rfl

end Create

variable (h : ProfileHandler)

/-- `UpdateTimer(enable)`. -/
def updateTimer (enable : Bool) : ProfileHandler :=
  if h.perThreadTimerEnabled then h
  else if enable = h.timerRunning then h
  else
    { h with
      timerRunning := enable
      setitimer := h.setitimer ++ [if enable then kMillion / h.frequency else 0] }

/-- `RegisterThread()`. -/
def registerThread : ProfileHandler :=
  if !h.allowed then h
  else if h.perThreadTimerEnabled then { h with threadTimers := h.threadTimers + 1 }
  else h.updateTimer (0 < h.callbackCount)

/-- `RegisterCallback(callback, callback_arg)`: the token. -/
def registerCallback : ProfileHandler × ℕ :=
  let token := h.nextToken
  let h :=
    { h with
      nextToken := token + 1
      callbacks := h.callbacks ++ [token]
      callbackCount := h.callbackCount + 1 }
  (h.updateTimer true, token)

/-- `UnregisterCallback(token)`; the two checks crash the program. -/
def unregisterCallback (token : ℕ) : Except String ProfileHandler :=
  if h.callbackCount = 0 then .error "Invalid callback count"
  else if token ∉ h.callbacks then .error "Invalid token"
  else
    let h :=
      { h with
        callbacks := h.callbacks.filter (· ≠ token)
        callbackCount := h.callbackCount - 1 }
    .ok (if h.callbackCount = 0 then h.updateTimer false else h)

/-- `Reset()`. -/
def reset : ProfileHandler :=
  ({ h with callbacks := [], callbackCount := 0 } : ProfileHandler).updateTimer false

/-- The calls into the handler. -/
inductive Op where
  | registerThread
  | registerCallback
  | unregisterCallback (token : ℕ)
  | reset
  deriving DecidableEq, Repr

/-- One call. -/
def Op.apply : Op → Except String ProfileHandler
  | .registerThread => .ok h.registerThread
  | .registerCallback => .ok h.registerCallback.1
  | .unregisterCallback token => h.unregisterCallback token
  | .reset => .ok h.reset

/-- A sequence of calls, until one crashes. -/
def run (h : ProfileHandler) : List Op → Except String ProfileHandler
  | [] => .ok h
  | op :: ops => match Op.apply h op with
    | .ok h => run h ops
    | .error e => .error e

/-! ## What `UpdateTimer` leaves alone -/

section UpdateTimer

variable (enable : Bool)

@[simp] theorem updateTimer_callbacks : (h.updateTimer enable).callbacks = h.callbacks := by
  unfold updateTimer; split_ifs <;> rfl

@[simp] theorem updateTimer_callbackCount :
    (h.updateTimer enable).callbackCount = h.callbackCount := by
  unfold updateTimer; split_ifs <;> rfl

@[simp] theorem updateTimer_allowed : (h.updateTimer enable).allowed = h.allowed := by
  unfold updateTimer; split_ifs <;> rfl

@[simp] theorem updateTimer_perThreadTimerEnabled :
    (h.updateTimer enable).perThreadTimerEnabled = h.perThreadTimerEnabled := by
  unfold updateTimer; split_ifs <;> rfl

@[simp] theorem updateTimer_nextToken : (h.updateTimer enable).nextToken = h.nextToken := by
  unfold updateTimer; split_ifs <;> rfl

/-- Without per-thread timers, the flag follows the last request. -/
theorem updateTimer_timerRunning (hpt : h.perThreadTimerEnabled = false) :
    (h.updateTimer enable).timerRunning = enable := by
  unfold updateTimer
  rw [if_neg (by simp [hpt])]
  by_cases hsame : enable = h.timerRunning
  · rw [if_pos hsame]
    exact hsame.symm
  · rw [if_neg hsame]

/-- Starting a stopped timer calls `setitimer` with the period of the
    frequency. -/
theorem updateTimer_start (hpt : h.perThreadTimerEnabled = false)
    (hstopped : h.timerRunning = false) :
    (h.updateTimer true).setitimer = h.setitimer ++ [kMillion / h.frequency] := by
  unfold updateTimer
  rw [if_neg (by simp [hpt]), if_neg (by simp [hstopped])]
  rfl

end UpdateTimer

/-! ## The invariant -/

/-- What registration keeps: `callback_count_` counts the callbacks, which are
    distinct tokens in the order they were handed out, and without
    per-thread timers the timer runs iff there is a callback. -/
structure Inv : Prop where
  count : h.callbackCount = h.callbacks.length
  sorted : h.callbacks.Pairwise (· < ·)
  fresh : ∀ t ∈ h.callbacks, t < h.nextToken
  running : h.perThreadTimerEnabled = false → h.timerRunning = decide (0 < h.callbackCount)

theorem Inv.create (frequencyEnv : Option ℕ) (perThread handlerAvailable : Bool) :
    Inv (create frequencyEnv perThread handlerAvailable) := by
  cases handlerAvailable <;>
    exact ⟨rfl, List.Pairwise.nil, fun _ h => absurd h List.not_mem_nil, fun _ => rfl⟩

variable {h}

/-! ## What each call does to the registration -/

@[simp] theorem registerThread_callbacks : h.registerThread.callbacks = h.callbacks := by
  unfold registerThread; split_ifs <;> simp

@[simp] theorem registerThread_callbackCount :
    h.registerThread.callbackCount = h.callbackCount := by
  unfold registerThread; split_ifs <;> simp

@[simp] theorem registerThread_nextToken : h.registerThread.nextToken = h.nextToken := by
  unfold registerThread; split_ifs <;> simp

@[simp] theorem registerThread_perThreadTimerEnabled :
    h.registerThread.perThreadTimerEnabled = h.perThreadTimerEnabled := by
  unfold registerThread; split_ifs <;> simp

@[simp] theorem registerThread_allowed : h.registerThread.allowed = h.allowed := by
  unfold registerThread; split_ifs <;> simp

@[simp] theorem registerCallback_callbacks :
    h.registerCallback.1.callbacks = h.callbacks ++ [h.nextToken] := by
  simp [registerCallback]

@[simp] theorem registerCallback_callbackCount :
    h.registerCallback.1.callbackCount = h.callbackCount + 1 := by
  simp [registerCallback]

@[simp] theorem registerCallback_nextToken :
    h.registerCallback.1.nextToken = h.nextToken + 1 := by
  simp [registerCallback]

@[simp] theorem registerCallback_perThreadTimerEnabled :
    h.registerCallback.1.perThreadTimerEnabled = h.perThreadTimerEnabled := by
  simp [registerCallback]

@[simp] theorem registerCallback_allowed : h.registerCallback.1.allowed = h.allowed := by
  simp [registerCallback]

theorem registerCallback_timerRunning (hpt : h.perThreadTimerEnabled = false) :
    h.registerCallback.1.timerRunning = true := by
  simp [registerCallback, updateTimer_timerRunning, hpt]

@[simp] theorem reset_callbacks : h.reset.callbacks = [] := by simp [reset]

@[simp] theorem reset_callbackCount : h.reset.callbackCount = 0 := by simp [reset]

@[simp] theorem reset_nextToken : h.reset.nextToken = h.nextToken := by simp [reset]

@[simp] theorem reset_perThreadTimerEnabled :
    h.reset.perThreadTimerEnabled = h.perThreadTimerEnabled := by
  simp [reset]

@[simp] theorem reset_allowed : h.reset.allowed = h.allowed := by simp [reset]

theorem reset_timerRunning (hpt : h.perThreadTimerEnabled = false) :
    h.reset.timerRunning = false := by
  simp [reset, updateTimer_timerRunning, hpt]

/-- `UnregisterCallback` on a callback, with the count not zero: the token
    is filtered out, and the timer stops with the last callback. -/
theorem unregisterCallback_spec {t : ℕ} (hcount : h.callbackCount ≠ 0) (ht : t ∈ h.callbacks) :
    ∃ h', h.unregisterCallback t = .ok h' ∧ h'.callbacks = h.callbacks.filter (· ≠ t) ∧
      h'.callbackCount = h.callbackCount - 1 ∧ h'.nextToken = h.nextToken ∧
      h'.perThreadTimerEnabled = h.perThreadTimerEnabled ∧ h'.allowed = h.allowed ∧
      (h.perThreadTimerEnabled = false →
        h'.timerRunning = if h.callbackCount - 1 = 0 then false else h.timerRunning) := by
  unfold unregisterCallback
  rw [if_neg hcount, if_neg (not_not.mpr ht)]
  dsimp only
  split_ifs with hzero
  · exact ⟨_, rfl, by simp, by simp, by simp, by simp, by simp,
      fun hpt => by simp [updateTimer_timerRunning, hpt]⟩
  · exact ⟨_, rfl, rfl, rfl, rfl, rfl, rfl, fun _ => rfl⟩

/-! ## The invariant is kept -/

theorem Inv.registerThread (hinv : Inv h) : Inv h.registerThread := by
  refine ⟨by simp [hinv.count], by simpa using hinv.sorted, by simpa using hinv.fresh,
    fun hpt => ?_⟩
  simp only [registerThread_perThreadTimerEnabled] at hpt
  -- with the timer driven by the count, `RegisterThread` sets it from the count
  unfold ProfileHandler.registerThread
  cases hal : h.allowed
  · simp [hinv.running hpt]
  · simp [hpt, updateTimer_timerRunning]

theorem Inv.registerCallback (hinv : Inv h) : Inv h.registerCallback.1 := by
  refine ⟨by simp [hinv.count], ?_, ?_, fun hpt => ?_⟩
  · -- the new token is above every outstanding one
    rw [registerCallback_callbacks]
    exact List.pairwise_append.mpr ⟨hinv.sorted, List.pairwise_singleton _ _,
      fun t ht u hu => (List.mem_singleton.mp hu) ▸ hinv.fresh t ht⟩
  · simp only [registerCallback_callbacks, registerCallback_nextToken, List.mem_append,
      List.mem_singleton]
    rintro t (ht | rfl)
    · exact Nat.lt_succ_of_lt (hinv.fresh t ht)
    · exact Nat.lt_succ_self _
  · rw [registerCallback_perThreadTimerEnabled] at hpt
    simp [registerCallback_timerRunning hpt]

/-- `UnregisterCallback` on a callback removes exactly it. -/
theorem Inv.unregisterCallback (hinv : Inv h) {t : ℕ} (ht : t ∈ h.callbacks) :
    ∃ h', h.unregisterCallback t = .ok h' ∧ Inv h' ∧ h'.callbacks = h.callbacks.erase t ∧
      h'.nextToken = h.nextToken ∧ h'.perThreadTimerEnabled = h.perThreadTimerEnabled ∧
      h'.allowed = h.allowed := by
  have hnodup : h.callbacks.Nodup := hinv.sorted.imp (fun hlt => Nat.ne_of_lt hlt)
  -- on distinct tokens, the filter of the source is `erase`
  have herase : h.callbacks.filter (· ≠ t) = h.callbacks.erase t := by
    rw [hnodup.erase_eq_filter]
    simp only [ne_eq, decide_not]
    rfl
  have hpos : 0 < h.callbackCount := by
    rw [hinv.count]
    exact List.length_pos_of_mem ht
  obtain ⟨h', hok, hcb, hcount, hnext, hpt, hal, hrun⟩ :=
    unregisterCallback_spec (Nat.pos_iff_ne_zero.mp hpos) ht
  rw [herase] at hcb
  refine ⟨h', hok, ⟨?_, ?_, ?_, fun hpt' => ?_⟩, hcb, hnext, hpt, hal⟩
  · rw [hcount, hcb, List.length_erase_of_mem ht, hinv.count]
  · rw [hcb]
    exact hinv.sorted.sublist List.erase_sublist
  · rw [hcb, hnext]
    exact fun u hu => hinv.fresh u (List.mem_of_mem_erase hu)
  · rw [hpt] at hpt'
    rw [hrun hpt', hcount]
    -- otherwise the timer was running, and there is still a callback
    split_ifs with hzero
    · simp [hzero]
    · rw [hinv.running hpt']
      simp only [decide_eq_decide]
      omega

/-- `Reset` leaves no callback and a stopped timer, from any state. -/
theorem Inv.reset : Inv h.reset := by
  refine ⟨by simp, by simp, by simp, fun hpt => ?_⟩
  rw [reset_perThreadTimerEnabled] at hpt
  simp [reset_timerRunning hpt]

/-! ## Every run of the registration calls -/

/-- The tokens outstanding, with the token the next registration gets: the
    registered ones, not unregistered since nor reset. -/
def registryStep : ℕ × List ℕ → Op → ℕ × List ℕ
  | s, .registerThread => s
  | (n, ts), .registerCallback => (n + 1, ts ++ [n])
  | (n, ts), .unregisterCallback t => (n, ts.erase t)
  | (n, _), .reset => (n, [])

/-- The calls in which every `UnregisterCallback` is on an outstanding
    token. -/
def Valid : ℕ × List ℕ → List Op → Prop
  | _, [] => True
  | s, op :: ops => (∀ t, op = .unregisterCallback t → t ∈ s.2) ∧ Valid (registryStep s op) ops

/-- A valid run does not crash, keeps the invariant, and its callbacks are
    the outstanding tokens. -/
theorem Inv.run (hinv : Inv h) (ops : List Op) (hvalid : Valid (h.nextToken, h.callbacks) ops) :
    ∃ h', h.run ops = .ok h' ∧ Inv h' ∧
      (h'.nextToken, h'.callbacks) = ops.foldl registryStep (h.nextToken, h.callbacks) ∧
      h'.perThreadTimerEnabled = h.perThreadTimerEnabled ∧ h'.allowed = h.allowed := by
  induction ops generalizing h with
  | nil => exact ⟨h, rfl, hinv, rfl, rfl, rfl⟩
  | cons op ops ih =>
    obtain ⟨hop, hvalid⟩ := hvalid
    -- one call: its result, and the registry step it makes
    obtain ⟨h1, happly, hinv1, hreg1, hpt1, hal1⟩ : ∃ h1, Op.apply h op = .ok h1 ∧ Inv h1 ∧
        (h1.nextToken, h1.callbacks) = registryStep (h.nextToken, h.callbacks) op ∧
        h1.perThreadTimerEnabled = h.perThreadTimerEnabled ∧ h1.allowed = h.allowed := by
      cases op with
      | registerThread =>
        exact ⟨_, rfl, hinv.registerThread, by simp [registryStep], by simp, by simp⟩
      | registerCallback =>
        exact ⟨_, rfl, hinv.registerCallback, by simp [registryStep], by simp, by simp⟩
      | unregisterCallback t =>
        obtain ⟨h1, hok, hinv1, hcb, hnext, hpt, hal⟩ := hinv.unregisterCallback (hop t rfl)
        exact ⟨h1, hok, hinv1, by rw [hcb, hnext]; rfl, hpt, hal⟩
      | reset =>
        exact ⟨_, rfl, Inv.reset, by simp [registryStep], by simp, by simp⟩
    rw [← hreg1] at hvalid
    obtain ⟨h', hrun, hinv', hreg', hpt', hal'⟩ := ih hinv1 hvalid
    refine ⟨h', by rw [ProfileHandler.run, happly]; exact hrun, hinv', ?_, hpt'.trans hpt1,
      hal'.trans hal1⟩
    rw [hreg', hreg1, List.foldl_cons]

/-- From the constructor with per-thread timers off, every valid sequence of
    calls runs, its callbacks are the outstanding tokens, each once and in
    the order they were registered, `callback_count_` is their number, and
    the timer runs iff there is a callback. -/
theorem run_create (frequencyEnv : Option ℕ) (handlerAvailable : Bool) (ops : List Op)
    (hvalid : Valid (0, []) ops) :
    ∃ h', (create frequencyEnv false handlerAvailable).run ops = .ok h' ∧
      h'.callbacks = (ops.foldl registryStep (0, [])).2 ∧ h'.callbacks.Pairwise (· < ·) ∧
      h'.callbackCount = h'.callbacks.length ∧ h'.timerRunning = decide (0 < h'.callbackCount) := by
  obtain ⟨h', hrun, hinv', hreg, hpt, -⟩ :=
    (Inv.create frequencyEnv false handlerAvailable).run ops (by simpa using hvalid)
  rw [create_nextToken, create_callbacks] at hreg
  rw [create_perThreadTimerEnabled] at hpt
  exact ⟨h', hrun, by rw [← hreg], hinv'.sorted, hinv'.count, hinv'.running hpt⟩

/-- Two callbacks registered, the first unregistered, a thread registered,
    then a third callback. -/
def someCalls : List Op :=
  [.registerCallback, .registerCallback, .unregisterCallback 0, .registerThread, .registerCallback]

theorem run_create_someCalls :
    Valid (0, []) someCalls ∧
      ∃ h', (create none false true).run someCalls = .ok h' ∧
        h'.callbacks = (someCalls.foldl registryStep (0, [])).2 ∧ h'.callbacks.Pairwise (· < ·) ∧
        h'.callbackCount = h'.callbacks.length ∧ h'.timerRunning = decide (0 < h'.callbackCount) := by
  have hvalid : Valid (0, []) someCalls := by
    simp [someCalls, Valid, registryStep]
  exact ⟨hvalid, run_create none true someCalls hvalid⟩

example : ((create none false true).run someCalls).map callbacks = .ok [1, 2] := by decide

/-! ## The timer without the signal -/

/-- `frequency_` is in `1 .. kMaxFrequency`, whatever `CPUPROFILE_FREQUENCY`
    holds. -/
theorem create_frequency (frequencyEnv : Option ℕ) (perThread handlerAvailable : Bool) :
    0 < (create frequencyEnv perThread handlerAvailable).frequency ∧
      (create frequencyEnv perThread handlerAvailable).frequency ≤ kMaxFrequency := by
  have hfreq : (create frequencyEnv perThread handlerAvailable).frequency =
      match frequencyEnv with
      | some f => if 0 < Word.signed 32 f then min (Word.signed 32 f).toNat kMaxFrequency
        else kDefaultFrequency
      | none => kDefaultFrequency := by
    cases handlerAvailable <;> rfl
  rw [hfreq]
  rcases frequencyEnv with _ | f
  · decide
  · dsimp only
    split_ifs with hpos
    · exact ⟨lt_min (by omega) (by decide), min_le_right _ _⟩
    · decide

/-- `RegisterCallback` does not check `allowed_`: when another handler owns
    the profiling signal, the first callback registered still calls
    `setitimer` with a nonzero interval, whatever the frequency. -/
theorem registerCallback_starts_timer (frequencyEnv : Option ℕ) :
    (create frequencyEnv false false).allowed = false ∧
      (create frequencyEnv false false).registerCallback.1.setitimer =
        [kMillion / (create frequencyEnv false false).frequency] ∧
      0 < kMillion / (create frequencyEnv false false).frequency := by
  obtain ⟨hpos, hle⟩ := create_frequency frequencyEnv false false
  refine ⟨rfl, ?_, Nat.div_pos (Nat.le_trans hle (by decide)) hpos⟩
  -- the new callback count is one, and the cached flag says stopped
  exact updateTimer_start _ rfl rfl

end ProfileHandler

end Gperftools
