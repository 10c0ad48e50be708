import Gperftools.Lib.Word
import Mathlib.Logic.Function.Basic

/-!
# The debug allocator's free queue

With `malloc_reclaim_memory` set, `MallocBlock::Deallocate` (debugallocation.cc)
does not free a block at once: `ProcessFreeQueue(b, size, max_free_queue_size)`
pushes it on `free_queue_`, a ring of `kFreeQueueSize` entries that leaves one
slot unused so that a full ring is not an empty one, adds its size and the size
of the entry to `free_queue_size_`, and then pops and frees the oldest entries
while `free_queue_size_ > max_free_queue_size` or the ring is full. The popped
entries are freed in batches of four, with the lock dropped between batches;
on one thread that changes only when they are freed, not in which order.

The ring is read as the list of its entries from `q_back_` on
(`FreeQueue.contents`), and `free_queue_size_` as the sum of the weights of
those entries, modulo `2 ^ 64`, as `size_t` holds it. `sizeof(MallocBlockQueueEntry)`
depends on the build, and is a parameter.

* `FreeQueue.contents_push`, `FreeQueue.contents_of_pop`: the ring is a FIFO
  queue of at most `kFreeQueueSize - 1` entries;
* `releaseLoop_spec`: the loop of `ProcessFreeQueue` never pops an empty ring
  and stops with a ring that is not full and `free_queue_size_` at most the
  flag, which the comparison converts to `size_t`;
* `Inv.processFreeQueue`, `run_inv`: from a state whose `free_queue_size_` is
  the weight of the ring, every call succeeds, keeps that, and frees the
  blocks in the order they were pushed;
* `freeQueue_fifo`: so does every sequence of calls from the empty queue, and
  `freeQueue_negative_limit`: a negative flag converts to a huge `size_t`, and
  leaves `free_queue_size_` above it.
-/

namespace Gperftools

/-- `FreeQueue<QueueEntry>::kFreeQueueSize`. -/
def kFreeQueueSize : ℕ := 1024

/-- `FreeQueue<QueueEntry>`: the ring `q_`, `q_front_`, where the next entry is
    pushed, and `q_back_`, where the next one is popped. -/
structure FreeQueue (α : Type) where
  q : ℕ → α
  front : ℕ
  back : ℕ
  front_lt : front < kFreeQueueSize
  back_lt : back < kFreeQueueSize

namespace FreeQueue

variable {α : Type}

/-- `FreeQueue()`, over an array of default entries. -/
def empty [Inhabited α] : FreeQueue α := ⟨fun _ => default, 0, 0, by decide, by decide⟩

/-- `Full()`. -/
def full (fq : FreeQueue α) : Bool := (fq.front + 1) % kFreeQueueSize == fq.back

/-- `Push(block)`. -/
def push (fq : FreeQueue α) (block : α) : FreeQueue α where
  q := Function.update fq.q fq.front block
  front := (fq.front + 1) % kFreeQueueSize
  back := fq.back
  front_lt := Nat.mod_lt _ (by decide)
  back_lt := fq.back_lt

/-- `Pop()`: `none` where `RAW_CHECK(q_back_ != q_front_, "Queue is empty")`
    fails. -/
def pop (fq : FreeQueue α) : Option (α × FreeQueue α) :=
  if fq.back = fq.front then none
  else some (fq.q fq.back, { fq with back := (fq.back + 1) % kFreeQueueSize, back_lt := Nat.mod_lt _ (by decide) })

/-- `size()`: `q_front_ - q_back_ + kFreeQueueSize` is never negative. -/
def size (fq : FreeQueue α) : ℕ := (fq.front + kFreeQueueSize - fq.back) % kFreeQueueSize

/-- The entries queued, from `q_back_` on. -/
def contents (fq : FreeQueue α) : List α :=
  (List.range fq.size).map fun i => fq.q ((fq.back + i) % kFreeQueueSize)

/-! ## The ring is a FIFO queue -/

variable {fq : FreeQueue α}

@[simp]
theorem length_contents : fq.contents.length = fq.size := by
  simp [contents]

theorem full_iff : fq.full = true ↔ fq.size = kFreeQueueSize - 1 := by
  have := fq.front_lt
  have := fq.back_lt
  unfold full size
  rw [beq_iff_eq]
  unfold kFreeQueueSize at *
  omega

theorem size_eq_zero_iff : fq.size = 0 ↔ fq.back = fq.front := by
  have := fq.front_lt
  have := fq.back_lt
  unfold size
  unfold kFreeQueueSize at *
  omega

/-- The entry `i` places after `q_back_` is the front exactly when `i` is the
    size. -/
theorem back_add_eq_front_iff {i : ℕ} (hi : i < kFreeQueueSize) :
    (fq.back + i) % kFreeQueueSize = fq.front ↔ i = fq.size := by
  have := fq.front_lt
  have := fq.back_lt
  unfold size
  unfold kFreeQueueSize at *
  omega

theorem size_push (h : fq.full = false) (a : α) : (fq.push a).size = fq.size + 1 := by
  have := fq.front_lt
  have := fq.back_lt
  unfold full at h
  rw [beq_eq_false_iff_ne] at h
  unfold size push
  unfold kFreeQueueSize at *
  dsimp only
  omega

@[simp]
theorem back_push (a : α) : (fq.push a).back = fq.back := rfl

theorem contents_push (h : fq.full = false) (a : α) : (fq.push a).contents = fq.contents ++ [a] := by
  have hsize : fq.size < kFreeQueueSize := Nat.mod_lt _ (by decide)
  rw [contents, size_push h, List.range_succ, List.map_append, contents]
  congr 1
  · -- the slots behind the front keep their entries
    refine List.map_congr_left fun i hi => Function.update_of_ne ?_ _ _
    rw [List.mem_range] at hi
    rw [back_push, Ne, back_add_eq_front_iff (by omega)]
    omega
  · -- the entry pushed sits at the old front
    rw [List.map_singleton]
    dsimp only [push]
    rw [(back_add_eq_front_iff hsize).2 rfl, Function.update_self]

theorem pop_eq_none_iff : fq.pop = none ↔ fq.contents = [] := by
  rw [← List.length_eq_zero_iff, length_contents, size_eq_zero_iff, pop]
  split_ifs with h
  · exact iff_of_true rfl h
  · simp [h]

theorem contents_of_pop {a : α} {fq' : FreeQueue α} (h : fq.pop = some (a, fq')) :
    fq.contents = a :: fq'.contents := by
  unfold pop at h
  split_ifs at h with hempty
  cases h
  have := fq.front_lt
  have := fq.back_lt
  -- one entry fewer, from the next slot on
  obtain ⟨n, hn⟩ : ∃ n, fq.size = n + 1 := Nat.exists_eq_succ_of_ne_zero (mt size_eq_zero_iff.1 hempty)
  have hn' : (({ fq with back := (fq.back + 1) % kFreeQueueSize, back_lt := Nat.mod_lt _ (by decide) } :
      FreeQueue α)).size = n := by
    revert hn
    unfold size
    unfold kFreeQueueSize at *
    dsimp only
    omega
  rw [contents, contents, hn, hn', List.range_succ_eq_map, List.map_cons, List.map_map]
  congr 1
  · rw [Nat.add_zero, Nat.mod_eq_of_lt fq.back_lt]
  · refine List.map_congr_left fun i _ => ?_
    dsimp only [Function.comp]
    congr 1
    unfold kFreeQueueSize at *
    omega

theorem size_pop {a : α} {fq' : FreeQueue α} (h : fq.pop = some (a, fq')) : fq'.size < fq.size := by
  have := congrArg List.length (contents_of_pop h)
  simp only [length_contents, List.length_cons] at this
  omega

@[simp]
theorem contents_empty [Inhabited α] : (empty : FreeQueue α).contents = [] := by
  rw [contents, size_eq_zero_iff.2 rfl, List.range_zero, List.map_nil]

theorem full_empty [Inhabited α] : (empty : FreeQueue α).full = false := rfl

end FreeQueue

/-- `MallocBlockQueueEntry`: the block, its address `0` for `nullptr`, and its
    size. The stack of the deleter it records is only printed. -/
structure MallocBlockQueueEntry where
  block : ℕ
  size : ℕ
deriving DecidableEq

/-- `MallocBlockQueueEntry()`. -/
instance : Inhabited MallocBlockQueueEntry := ⟨⟨0, 0⟩⟩

namespace MallocBlock

/-- The statics of the free queue: `free_queue_`, `free_queue_size_`, and the
    blocks passed to `do_free` so far. -/
structure FreeQueueState where
  freeQueue : FreeQueue MallocBlockQueueEntry
  freeQueueSize : ℕ
  freed : List ℕ

/-- Before the first call: an empty queue. -/
def FreeQueueState.init : FreeQueueState := ⟨FreeQueue.empty, 0, []⟩

-- `sizeof(MallocBlockQueueEntry)`
variable (entrySize : ℕ)

/-- The `while` loop of `ProcessFreeQueue`: from the ring,
    `free_queue_size_`, `entries[0 .. num_entries)` and the blocks freed, the
    same after the loop; `none` where a `RAW_CHECK` fails. -/
def releaseLoop (maxFreeQueueSize : ℤ) (fq : FreeQueue MallocBlockQueueEntry) (freeQueueSize : ℕ)
    (entries : List MallocBlockQueueEntry) (freed : List ℕ) :
    Option (FreeQueue MallocBlockQueueEntry × ℕ × List MallocBlockQueueEntry × List ℕ) :=
  -- `free_queue_size_ > max_free_queue_size` converts the flag to `size_t`
  if Word.ofInt 64 maxFreeQueueSize < freeQueueSize ∨ fq.full = true then
    -- `RAW_CHECK(num_entries < arraysize(entries), "entries array overflow")`
    if entries.length < 4 then
      -- the popped entry, named for the termination proof
      match _hpop : fq.pop with
      | none => none
      | some (entry, fq') =>
        let freeQueueSize := Word.sub 64 freeQueueSize (entry.size + entrySize)
        let entries := entries ++ [entry]
        if entries.length = 4 then
          -- the lock is dropped and the batch freed
          releaseLoop maxFreeQueueSize fq' freeQueueSize [] (freed ++ entries.map MallocBlockQueueEntry.block)
        else releaseLoop maxFreeQueueSize fq' freeQueueSize entries freed
    else none
  else some (fq, freeQueueSize, entries, freed)
termination_by fq.size
decreasing_by all_goals exact FreeQueue.size_pop (by assumption)

/-- `ProcessFreeQueue(b, size, max_free_queue_size)`, with `b` the address of
    the block, `0` for `nullptr`. -/
def processFreeQueue (s : FreeQueueState) (b size : ℕ) (maxFreeQueueSize : ℤ) : Option FreeQueueState :=
  -- `RAW_CHECK(!free_queue_->Full(), "Free queue mustn't be full!")`
  if s.freeQueue.full then none
  else
    let (fq, freeQueueSize) :=
      if b ≠ 0 then (s.freeQueue.push ⟨b, size⟩, Word.add 64 s.freeQueueSize (size + entrySize))
      else (s.freeQueue, s.freeQueueSize)
    match releaseLoop entrySize maxFreeQueueSize fq freeQueueSize [] s.freed with
    | none => none
    -- the last batch is freed after the loop
    | some (fq, freeQueueSize, entries, freed) =>
      some ⟨fq, freeQueueSize, freed ++ entries.map MallocBlockQueueEntry.block⟩

/-- The calls `ProcessFreeQueue(b, size, max_free_queue_size)` in turn. -/
def run : FreeQueueState → List (ℕ × ℕ × ℤ) → Option FreeQueueState
  | s, [] => some s
  | s, (b, size, maxFreeQueueSize) :: calls =>
    (processFreeQueue entrySize s b size maxFreeQueueSize).bind fun s => run s calls

/-! ## `free_queue_size_` is the weight of the ring -/

/-- What the entries of the ring add to `free_queue_size_`, as `size_t`. -/
def queuedSize (fq : FreeQueue MallocBlockQueueEntry) : ℕ :=
  (fq.contents.map fun e => e.size + entrySize).sum % 2 ^ 64

/-- The invariant of the free queue: `free_queue_size_` is the weight of the
    ring, and the ring is not full. -/
structure Inv (s : FreeQueueState) : Prop where
  size_eq : s.freeQueueSize = queuedSize entrySize s.freeQueue
  not_full : s.freeQueue.full = false

/-- The blocks freed so far, then those in the ring. -/
def FreeQueueState.blocks (s : FreeQueueState) : List ℕ :=
  s.freed ++ s.freeQueue.contents.map MallocBlockQueueEntry.block

variable {entrySize}

theorem queuedSize_push {fq : FreeQueue MallocBlockQueueEntry} (h : fq.full = false) (e : MallocBlockQueueEntry) :
    queuedSize entrySize (fq.push e) = Word.add 64 (queuedSize entrySize fq) (e.size + entrySize) := by
  rw [queuedSize, queuedSize, FreeQueue.contents_push h, List.map_append, List.sum_append, Word.add,
    Nat.mod_add_mod, List.map_singleton, List.sum_singleton]

theorem queuedSize_pop {fq fq' : FreeQueue MallocBlockQueueEntry} {e : MallocBlockQueueEntry}
    (h : fq.pop = some (e, fq')) :
    Word.sub 64 (queuedSize entrySize fq) (e.size + entrySize) = queuedSize entrySize fq' := by
  rw [queuedSize, FreeQueue.contents_of_pop h, List.map_cons, List.sum_cons, ← Word.add, Word.sub_add_self]
  rfl

/-- An empty ring weighs nothing, and so never exceeds the flag. -/
theorem queuedSize_eq_zero {fq : FreeQueue MallocBlockQueueEntry} (h : fq.contents = []) :
    queuedSize entrySize fq = 0 := by
  rw [queuedSize, h]
  rfl

/-- The loop of `ProcessFreeQueue`, on a `free_queue_size_` that is the weight of
    the ring and fewer than four entries in hand: it never pops an empty ring or
    overflows `entries`, stops with a ring that is not full and
    `free_queue_size_` the weight of the ring and at most the flag as `size_t`,
    and the blocks freed, in hand and in the ring keep their order. -/
theorem releaseLoop_spec (maxFreeQueueSize : ℤ) (fq : FreeQueue MallocBlockQueueEntry)
    (entries : List MallocBlockQueueEntry) (freed : List ℕ) (hentries : entries.length < 4) :
    ∃ fq' entries' freed',
      releaseLoop entrySize maxFreeQueueSize fq (queuedSize entrySize fq) entries freed =
        some (fq', queuedSize entrySize fq', entries', freed') ∧
      fq'.full = false ∧ queuedSize entrySize fq' ≤ Word.ofInt 64 maxFreeQueueSize ∧ entries'.length < 4 ∧
      freed' ++ (entries' ++ fq'.contents).map MallocBlockQueueEntry.block =
        freed ++ (entries ++ fq.contents).map MallocBlockQueueEntry.block := by
  rw [releaseLoop]
  by_cases hloop : Word.ofInt 64 maxFreeQueueSize < queuedSize entrySize fq ∨ fq.full = true
  · rw [if_pos hloop, if_pos hentries]
    split
    · -- an empty ring weighs nothing and is not full: the loop would not run
      rename_i hpop
      have hnil := FreeQueue.pop_eq_none_iff.1 hpop
      have hfull : fq.full = false := by
        rw [Bool.eq_false_iff, Ne, FreeQueue.full_iff, ← FreeQueue.length_contents, hnil]
        decide
      rcases hloop with hlt | hfull'
      · exact absurd hlt (by rw [queuedSize_eq_zero hnil]; exact Nat.not_lt_zero _)
      · exact absurd hfull' (by rw [hfull]; decide)
    · rename_i entry fq' hpop
      have hcontents := FreeQueue.contents_of_pop hpop
      rw [queuedSize_pop hpop]
      dsimp only
      split_ifs with hbatch
      · obtain ⟨fq'', entries', freed', hrun, hfull, hle, hlen, hfreed⟩ :=
          releaseLoop_spec maxFreeQueueSize fq' [] (freed ++ (entries ++ [entry]).map MallocBlockQueueEntry.block)
            (by decide)
        refine ⟨fq'', entries', freed', hrun, hfull, hle, hlen, ?_⟩
        rw [hfreed, hcontents]
        simp
      · obtain ⟨fq'', entries', freed', hrun, hfull, hle, hlen, hfreed⟩ :=
          releaseLoop_spec maxFreeQueueSize fq' (entries ++ [entry]) freed
            (by rw [List.length_append] at hbatch ⊢; simp only [List.length_singleton] at hbatch ⊢; omega)
        refine ⟨fq'', entries', freed', hrun, hfull, hle, hlen, ?_⟩
        rw [hfreed, hcontents]
        simp
  · rw [if_neg hloop]
    rw [not_or, Bool.not_eq_true] at hloop
    exact ⟨fq, entries, freed, rfl, hloop.2, Nat.le_of_not_lt hloop.1, hentries, rfl⟩
termination_by fq.size
decreasing_by all_goals exact FreeQueue.size_pop (by assumption)

/-! ## Every call -/

theorem init_inv : Inv entrySize FreeQueueState.init :=
  ⟨(queuedSize_eq_zero FreeQueue.contents_empty).symm, FreeQueue.full_empty⟩

/-- One call succeeds, keeps the invariant, appends a block that is not
    `nullptr` to the blocks, and leaves `free_queue_size_` at most the flag as
    `size_t`. -/
theorem Inv.processFreeQueue {s : FreeQueueState} (hs : Inv entrySize s) (b size : ℕ) (maxFreeQueueSize : ℤ) :
    ∃ s', processFreeQueue entrySize s b size maxFreeQueueSize = some s' ∧ Inv entrySize s' ∧
      s'.blocks = s.blocks ++ [b].filter (· ≠ 0) ∧ s'.freeQueueSize ≤ Word.ofInt 64 maxFreeQueueSize := by
  -- the ring and `free_queue_size_` after the push
  obtain ⟨fq, hfq, hcontents⟩ : ∃ fq : FreeQueue MallocBlockQueueEntry,
      (if b ≠ 0 then (s.freeQueue.push ⟨b, size⟩, Word.add 64 s.freeQueueSize (size + entrySize))
        else (s.freeQueue, s.freeQueueSize)) = (fq, queuedSize entrySize fq) ∧
      fq.contents.map MallocBlockQueueEntry.block =
        s.freeQueue.contents.map MallocBlockQueueEntry.block ++ [b].filter (· ≠ 0) := by
    by_cases hb : b ≠ 0
    · refine ⟨s.freeQueue.push ⟨b, size⟩, ?_, ?_⟩
      · rw [if_pos hb, queuedSize_push hs.not_full, hs.size_eq]
      · simp [FreeQueue.contents_push hs.not_full, hb]
    · refine ⟨s.freeQueue, ?_, ?_⟩
      · rw [if_neg hb, hs.size_eq]
      · simp only [List.filter_singleton, decide_not, not_not.1 hb]
        simp
  obtain ⟨fq', entries', freed', hloop, hfull, hle, -, hfreed⟩ := releaseLoop_spec maxFreeQueueSize fq [] s.freed (by decide)
  refine ⟨⟨fq', queuedSize entrySize fq', freed' ++ entries'.map MallocBlockQueueEntry.block⟩, ?_, ⟨rfl, hfull⟩,
    ?_, hle⟩
  · rw [MallocBlock.processFreeQueue, if_neg (by rw [hs.not_full]; decide)]
    dsimp only
    rw [hfq]
    dsimp only
    rw [hloop]
  · rw [FreeQueueState.blocks, FreeQueueState.blocks, List.append_assoc, ← List.map_append, hfreed,
      List.nil_append, hcontents, List.append_assoc]

/-- Every run succeeds, keeps the invariant, and the blocks are those pushed,
    in order. -/
theorem run_inv : ∀ (calls : List (ℕ × ℕ × ℤ)) (s : FreeQueueState), Inv entrySize s →
    ∃ s', run entrySize s calls = some s' ∧ Inv entrySize s' ∧
      s'.blocks = s.blocks ++ (calls.map Prod.fst).filter (· ≠ 0)
  | [], s, hs => ⟨s, rfl, hs, by simp⟩
  | (b, size, maxFreeQueueSize) :: calls, s, hs => by
    obtain ⟨s₁, hstep, hs₁, hblocks₁, -⟩ := hs.processFreeQueue b size maxFreeQueueSize
    obtain ⟨s₂, hrun, hs₂, hblocks₂⟩ := run_inv calls s₁ hs₁
    refine ⟨s₂, ?_, hs₂, ?_⟩
    · rw [run, hstep]
      exact hrun
    · rw [hblocks₂, hblocks₁, List.map_cons, List.filter_cons, List.append_assoc]
      by_cases hb : b = 0 <;> simp [hb]

theorem run_append (s : FreeQueueState) (calls calls' : List (ℕ × ℕ × ℤ)) :
    run entrySize s (calls ++ calls') = (run entrySize s calls).bind fun s => run entrySize s calls' := by
  induction calls generalizing s with
  | nil => rfl
  | cons call calls ih =>
    obtain ⟨b, size, maxFreeQueueSize⟩ := call
    rw [List.cons_append, run, run, Option.bind_assoc]
    simp only [ih]

/-! ## From the empty queue -/

/-- Debug-allocator free queue, with the flag as the comparison reads it: after
    every sequence of calls from the empty queue, each call has succeeded,
    `free_queue_size_` is the sum of the weights of the entries in the ring as
    `size_t` holds it, the ring is not full, the blocks freed and then those in
    the ring are the blocks pushed in order, and after the last call
    `free_queue_size_` is at most the flag converted to `size_t`, so at most
    the flag when it is not negative. -/
theorem freeQueue_fifo (calls : List (ℕ × ℕ × ℤ)) (b size : ℕ) (maxFreeQueueSize : ℤ) :
    ∃ s, run entrySize FreeQueueState.init (calls ++ [(b, size, maxFreeQueueSize)]) = some s ∧
      s.freeQueueSize = (s.freeQueue.contents.map fun e => e.size + entrySize).sum % 2 ^ 64 ∧
      s.freeQueue.full = false ∧
      s.freed ++ s.freeQueue.contents.map MallocBlockQueueEntry.block =
        ((calls ++ [(b, size, maxFreeQueueSize)]).map Prod.fst).filter (· ≠ 0) ∧
      s.freeQueueSize ≤ Word.ofInt 64 maxFreeQueueSize ∧
      (0 ≤ maxFreeQueueSize → maxFreeQueueSize < 2 ^ 64 → (s.freeQueueSize : ℤ) ≤ maxFreeQueueSize) := by
  obtain ⟨s₁, hrun₁, hs₁, hblocks₁⟩ := run_inv calls _ (init_inv : Inv entrySize FreeQueueState.init)
  obtain ⟨s, hstep, hs, hblocks, hle⟩ := hs₁.processFreeQueue b size maxFreeQueueSize
  refine ⟨s, ?_, hs.size_eq, hs.not_full, ?_, hle, fun hlo hhi => ?_⟩
  · rw [run_append, hrun₁]
    show (processFreeQueue entrySize s₁ b size maxFreeQueueSize).bind (fun s => some s) = some s
    rw [hstep]
    rfl
  · rw [← FreeQueueState.blocks, hblocks, hblocks₁, List.map_append, List.filter_append]
    rfl
  · -- a non-negative flag below `2 ^ 64` is its own `size_t`
    rw [← Int.toNat_of_nonneg hlo, Word.ofInt_natCast_of_lt (by omega)] at hle
    omega

/-- `ProcessFreeQueue(b, 16, -1)` with `TCMALLOC_MAX_FREE_QUEUE_SIZE=-1` and the
    160-byte entries of LP64: the flag converts to `2 ^ 64 - 1`, so the block
    stays queued, and `free_queue_size_` is `176`, above the flag. -/
theorem freeQueue_negative_limit :
    ∃ s, processFreeQueue 160 FreeQueueState.init 4096 16 (-1) = some s ∧
      s.freeQueue.contents = [⟨4096, 16⟩] ∧ s.freeQueueSize = 176 ∧ ¬ ((176 : ℤ) ≤ -1) := by
  refine ⟨⟨FreeQueue.empty.push ⟨4096, 16⟩, 176, []⟩, ?_, ?_, rfl, by decide⟩
  · rw [processFreeQueue, if_neg (by decide)]
    dsimp only
    rw [if_pos (by decide), releaseLoop, if_neg (by decide)]
    rfl
  · rw [FreeQueue.contents_push FreeQueue.full_empty, FreeQueue.contents_empty]
    rfl

end MallocBlock

end Gperftools
