import Gperftools.StackTraceTable
import Gperftools.PageHeapAllocator

/-!
# The table of sampled stack traces

`StackTraceTable` (stack_trace_table.cc) collects the stack traces of the
sampled objects: `AddTrace` copies a trace into a new `Entry`, linked first
from `head_`, and `ReadStackTracesAndClear` dumps the traces from `head_` with
`ProduceStackTracesDump`, then gives every entry back and empties the list.
The entries come from an `STLPageHeapAllocator<Entry, void>`, whose storage
is static: it runs `Init` on its first allocation only, and keeps its objects
across tables.

The allocator is the model of `Gperftools.PageHeapAllocator`. An `Entry`
holds its `next` pointer in its first word, the word that `Delete` links the
free list through; its trace is kept beside the allocator's words, one value
per entry, since the allocator never writes past an object's first word. The
loops over the entries are `Chain.walk` and `clearLoop` with the allocator's
`inuse()` as fuel, which counts the entries.

* `Holds`: the table is empty and its allocator not yet initialized, or the
  allocator refines `SpanAllocator` with the entries as the pointers held,
  and `head_` links the entries, whose traces are the ones pending;
* `Holds.addTrace`, `Holds.read`: each call keeps it (`push_entry` is the
  allocation and the link of a new entry), the first with one more
  trace pending, the second with none, having dumped the pending ones
  (`clearLoop_spec` gives every entry back);
* `runTable_eq_specRun`: over every sequence of calls from a new table, when
  `MetaDataAlloc` returns chunks that share no address, nothing crashes,
  `error_` is never set, each read dumps exactly the traces added since
  the read before, the last added first, and leaves the allocator with no
  entry in use.
-/

namespace Gperftools

namespace StackTraceTable

open PageHeapAllocator Intervals

/-- `sizeof(Entry)`: the `next` pointer, then the `StackTrace`: its size, its
    depth and `kMaxStackDepth` program counters, eight bytes each. -/
def entrySize : ℕ := 8 * (3 + kMaxStackDepth)

/-- The trace of a word that no `AddTrace` wrote. -/
instance : Inhabited StackTrace := ⟨⟨0, 0, List.replicate kMaxStackDepth 0, List.length_replicate⟩⟩

/-- `StackTraceTable`, with the storage of its `STLPageHeapAllocator`. -/
structure Table where
  /-- `error_`. -/
  error : Bool
  /-- `head_`: the entry added last; `0` for `nullptr`. -/
  head : ℕ
  /-- `underlying_.allocator`. -/
  alloc : PageHeapAllocator
  /-- `underlying_.initialized`. -/
  initialized : Bool
  /-- The `trace` field of the entry at each address. -/
  trace : ℕ → StackTrace

/-- A table, with a storage that has not allocated yet over memory `mem`. -/
def Table.empty (mem : ℕ → ℕ) : Table :=
  ⟨false, 0, ⟨0, 0, 0, 0, mem, 0⟩, false, fun _ => default⟩

variable (chunk : ℕ → ℕ)

/-- `STLPageHeapAllocator::allocate(1)`: `Init()` on the first call, then
    `New()`. -/
def allocate (tb : Table) : Option (ℕ × PageHeapAllocator) :=
  (if tb.initialized then some tb.alloc else init entrySize chunk tb.alloc.mem).bind
    (new entrySize chunk)

/-- `AddTrace(t)`: the new entry goes first. `none` where `New` crashes. -/
def addTrace (t : StackTrace) (tb : Table) : Option Table :=
  if tb.error then some tb
  else (allocate chunk tb).map fun (entry, a) =>
    if entry = 0 then
      -- `Log(kLog, ..., "tcmalloc: could not allocate bucket", ...)`
      { tb with alloc := a, initialized := true, error := true }
    else
      { tb with
        alloc := { a with mem := Function.update a.mem entry tb.head }
        initialized := true
        trace := Function.update tb.trace entry t
        head := entry }

/-- The loop of `ReadStackTracesAndClear` that gives the entries back: the
    next entry is read before `deallocate` links the entry into the free list
    through the same word. -/
def clearLoop : ℕ → PageHeapAllocator → ℕ → PageHeapAllocator
  | 0, a, _ => a
  | fuel + 1, a, entry => if entry = 0 then a else clearLoop fuel (delete a entry) (a.mem entry)

/-- `ReadStackTracesAndClear()`: the dump of the traces from `head_`, and the
    table with every entry given back. -/
def readStackTracesAndClear (tb : Table) : Option (List (Option ℕ)) × Table :=
  let fuel := tb.alloc.inuse.toNat
  (produceStackTracesDump ((Chain.walk (link tb.alloc.mem) fuel (ptr tb.head)).map tb.trace),
    { tb with error := false, alloc := clearLoop fuel tb.alloc tb.head, head := 0 })

/-- A call on the table. -/
inductive TableOp
  | addTrace (t : StackTrace)
  | read

/-- A sequence of calls, with the dumps the reads return; `none` where `New`
    crashes. -/
def runTable : Table → List TableOp → Option (List (Option (List (Option ℕ))) × Table)
  | tb, [] => some ([], tb)
  | tb, .addTrace t :: ops => (addTrace chunk t tb).bind fun tb' => runTable tb' ops
  | tb, .read :: ops =>
    (runTable (readStackTracesAndClear tb).2 ops).map fun r => ((readStackTracesAndClear tb).1 :: r.1, r.2)

/-- What the table is for: the traces added since the last read, the last
    added first, dumped at the next read. -/
def specRun : List StackTrace → List TableOp → List (Option (List (Option ℕ)))
  | _, [] => []
  | pending, .addTrace t :: ops => specRun (t :: pending) ops
  | pending, .read :: ops => produceStackTracesDump pending :: specRun [] ops

/-! ## The invariant -/

/-- The table with the traces `pending`, the last added first: empty, with
    no object in use, before its storage is initialized, and afterwards the
    allocator refines `SpanAllocator` with the entries as the pointers held,
    and `head_` links the entries through their `next` words. -/
inductive Holds (tb : Table) : List StackTrace → Prop
  | fresh : tb.error = false → tb.initialized = false → tb.head = 0 → tb.alloc.inuse = 0 → Holds tb []
  | live {s : SpanAllocator} {ids : List SpanId} {entries objs : List ℕ} :
      tb.error = false → tb.initialized = true → Refines entrySize chunk s ids ⟨tb.alloc, entries⟩ objs →
      Chain (link tb.alloc.mem) (ptr tb.head) entries → Holds tb (entries.map tb.trace)

variable {chunk}

theorem entrySize_pos : 0 < entrySize := by decide

theorem entrySize_le : entrySize ≤ kAllocIncrement := by decide

theorem Holds.error {tb : Table} {pending : List StackTrace} (h : Holds chunk tb pending) :
    tb.error = false := by
  cases h <;> assumption

/-- `inuse()` counts the entries, one for each pending trace. -/
theorem Holds.inuse {tb : Table} {pending : List StackTrace} (h : Holds chunk tb pending) :
    tb.alloc.inuse = pending.length := by
  cases h with
  | fresh _ _ _ hinuse => exact hinuse
  | live _ _ hr _ =>
    have hlen : _ = _ := congrArg List.length hr.held
    simp only [List.length_map] at hlen
    rw [hr.inuse, List.length_map, hlen]

/-- `New` takes no word of memory. -/
theorem mem_of_new {size : ℕ} {a a' : PageHeapAllocator} {p : ℕ} (h : new size chunk a = some (p, a')) :
    a'.mem = a.mem := by
  unfold new at h
  simp only at h
  split_ifs at h <;> (cases h; rfl)

/-- The loop gives back every entry, from the head on, and leaves the
    allocator holding none, with as much fuel as there are entries. -/
theorem clearLoop_spec {entries : List ℕ} : ∀ {a : PageHeapAllocator} {head fuel : ℕ} {s : SpanAllocator}
    {ids : List SpanId} {objs : List ℕ}, Refines entrySize chunk s ids ⟨a, entries⟩ objs →
    Chain (link a.mem) (ptr head) entries → entries.length ≤ fuel →
    ∃ s' objs', Refines entrySize chunk s' [] ⟨clearLoop fuel a head, []⟩ objs' := by
  induction entries with
  | nil =>
    intro a head fuel s ids objs hr hchain _
    have hhead : head = 0 := ptr_eq_none_iff.mp hchain.head_eq
    have hids : ids = [] := List.length_eq_zero_iff.mp hr.length_held.symm
    subst hhead hids
    have hclear : clearLoop fuel a 0 = a := by
      cases fuel <;> simp [clearLoop]
    rw [hclear]
    exact ⟨s, objs, hr⟩
  | cons e rest ih =>
    intro a head fuel s ids objs hr hchain hfuel
    have hnodup := hchain.nodup
    have hhead : ptr head = some e := hchain.head_eq
    obtain ⟨he0, rfl⟩ := ptr_eq_some_iff.mp hhead
    obtain ⟨fuel, rfl⟩ : ∃ f, fuel = f + 1 := ⟨fuel - 1, by simp only [List.length_cons] at hfuel; omega⟩
    rw [clearLoop, if_neg he0]
    -- `deallocate` of the head entry, after its `next` word was read
    obtain ⟨c', hdel, hr'⟩ := hr.delete entrySize_pos (i := 0) (by simp)
    have hdel' : Op.apply entrySize chunk ⟨a, head :: rest⟩ (.delete 0) = some ⟨delete a head, rest⟩ := by
      simp [Op.apply]
    rw [hdel'] at hdel
    cases hdel
    have htail : Chain (link a.mem) (ptr (a.mem head)) rest := by
      rw [hhead] at hchain
      obtain ⟨l', hl', h'⟩ := Chain.some_iff.mp hchain
      cases hl'
      exact h'
    refine ih hr' (htail.frame fun x hx => ?_) (by simp only [List.length_cons] at hfuel; omega)
    rw [link, link]
    exact congrArg ptr (Function.update_of_ne (ne_of_mem_of_not_mem hx (List.nodup_cons.mp hnodup).1) _ _)

/-- `ReadStackTracesAndClear` dumps the pending traces and leaves none. -/
theorem Holds.read {tb : Table} {pending : List StackTrace} (h : Holds chunk tb pending) :
    (readStackTracesAndClear tb).1 = produceStackTracesDump pending ∧
      Holds chunk (readStackTracesAndClear tb).2 [] := by
  cases h with
  | fresh herr hinit hhead hinuse =>
    have hwalk : ∀ n, Chain.walk (link tb.alloc.mem) n (ptr tb.head) = [] := by
      rintro (_ | _) <;> simp [Chain.walk, hhead, ptr]
    have hclear : ∀ n, clearLoop n tb.alloc tb.head = tb.alloc := by
      rintro (_ | _) <;> simp [clearLoop, hhead]
    refine ⟨by simp only [readStackTracesAndClear, hwalk, List.map_nil], ?_⟩
    simp only [readStackTracesAndClear, hclear]
    exact .fresh rfl hinit rfl hinuse
  | live herr hinit hr hchain =>
    -- `inuse()` counts the entries, so both loops run to the end of the list
    have hfuel : tb.alloc.inuse.toNat = _ := congrArg Int.toNat hr.inuse
    rw [← hr.length_held, Int.toNat_natCast] at hfuel
    obtain ⟨s', objs', hr'⟩ := clearLoop_spec hr hchain hfuel.ge
    refine ⟨by simp only [readStackTracesAndClear, hchain.walk_eq hfuel.ge], ?_⟩
    have hchain' : Chain (link (readStackTracesAndClear tb).2.alloc.mem)
        (ptr (readStackTracesAndClear tb).2.head) [] := by
      show Chain _ (ptr 0) []
      rw [ptr, if_pos rfl]
      exact Chain.nil
    exact Holds.live rfl (show (readStackTracesAndClear tb).2.initialized = true from hinit) hr' hchain'

section Oracle

variable (hchunk : ∀ k, 0 < chunk k)
  (hsep : ∀ j k, j ≠ k → Apart (chunk j, kAllocIncrement) (chunk k, kAllocIncrement))
include hchunk hsep

/-- `New` and the write of `next` put a new entry first: it is not
    `nullptr`, not one of the entries, and links to the old head. -/
theorem push_entry {s : SpanAllocator} {ids : List SpanId} {a : PageHeapAllocator}
    {entries objs : List ℕ} {head : ℕ} (h : Refines entrySize chunk s ids ⟨a, entries⟩ objs)
    (hchain : Chain (link a.mem) (ptr head) entries) :
    ∃ entry a' s' ids' objs', new entrySize chunk a = some (entry, a') ∧ 0 < entry ∧ entry ∉ entries ∧
      Refines entrySize chunk s' ids' ⟨{ a' with mem := Function.update a'.mem entry head }, entry :: entries⟩
        objs' ∧
      Chain (link (Function.update a'.mem entry head)) (some entry) (entry :: entries) := by
  obtain ⟨c', objs', happly, h'⟩ := h.apply entrySize_pos entrySize_le hchunk hsep .new
  simp only [Op.apply] at happly
  obtain ⟨⟨entry, a'⟩, hnew, rfl⟩ := Option.map_eq_some_iff.mp happly
  have hpos : 0 < entry := h'.pos_of_mem_held List.mem_cons_self
  have hnotin : entry ∉ entries := (List.nodup_cons.mp (h'.nodup_held entrySize_pos)).1
  -- `entry->next = head_` is a write into the object just taken
  obtain ⟨c'', hw, h''⟩ := h'.write entrySize_pos (i := 0) (v := head) (by simp) (show 0 + 8 ≤ entrySize by decide)
  have hwrite : Op.apply entrySize chunk ⟨a', entry :: entries⟩ (.write 0 0 head) =
      some ⟨{ a' with mem := Function.update a'.mem entry head }, entry :: entries⟩ := by
    simp [Op.apply, show 8 ≤ entrySize by decide]
  rw [hwrite] at hw
  cases hw
  refine ⟨entry, a', _, _, objs', hnew, hpos, hnotin, h'', Chain.cons ?_⟩
  rw [link, Function.update_self]
  -- the other entries keep their `next` words
  refine (mem_of_new hnew ▸ hchain).frame fun e he => ?_
  rw [link, link, Function.update_of_ne (ne_of_mem_of_not_mem he hnotin)]

/-- `AddTrace` adds the trace first. -/
theorem Holds.addTrace {tb : Table} {pending : List StackTrace} (h : Holds chunk tb pending)
    (t : StackTrace) : ∃ tb', addTrace chunk t tb = some tb' ∧ Holds chunk tb' (t :: pending) := by
  -- the allocator the entry comes from: `Init`'s on the first call
  obtain ⟨a, s, ids, entries, objs, herr, halloc, hr, hchain, hpending⟩ :
      ∃ a s ids entries objs, tb.error = false ∧
        (if tb.initialized then some tb.alloc else init entrySize chunk tb.alloc.mem) = some a ∧
        Refines entrySize chunk s ids ⟨a, entries⟩ objs ∧ Chain (link a.mem) (ptr tb.head) entries ∧
        pending = entries.map tb.trace := by
    cases h with
    | fresh herr hinit hhead _ =>
      obtain ⟨a, objs, ha, hr⟩ := init_refines entrySize_pos entrySize_le hchunk hsep tb.alloc.mem
      refine ⟨a, _, _, [], objs, herr, by rw [hinit]; exact ha, hr, ?_, rfl⟩
      rw [hhead, ptr, if_pos rfl]
      exact Chain.nil
    | live herr hinit hr hchain =>
      exact ⟨tb.alloc, _, _, _, _, herr, by rw [hinit]; rfl, hr, hchain, rfl⟩
  obtain ⟨entry, a', s', ids', objs', hnew, hpos, hnotin, hr', hchain'⟩ := push_entry hchunk hsep hr hchain
  refine ⟨{ tb with
      alloc := { a' with mem := Function.update a'.mem entry tb.head }
      initialized := true
      trace := Function.update tb.trace entry t
      head := entry }, by simp [StackTraceTable.addTrace, allocate, herr, halloc, hnew, hpos.ne'], ?_⟩
  -- the traces of the other entries stay
  have hmap : (entry :: entries).map (Function.update tb.trace entry t) = t :: pending := by
    rw [List.map_cons, Function.update_self, hpending]
    congr 1
    exact List.map_congr_left fun e he => Function.update_of_ne (ne_of_mem_of_not_mem he hnotin) _ _
  rw [← hmap]
  exact .live herr rfl hr' (by rw [ptr_of_pos hpos]; exact hchain')

/-- Every sequence of calls, from a table that holds, runs as `specRun`;
    after a last read, the allocator has every entry back and `head_` is
    null. The induction is on the calls. -/
theorem Holds.run {tb : Table} {pending : List StackTrace} (h : Holds chunk tb pending)
    (ops : List TableOp) :
    ∃ tb', runTable chunk tb ops = some (specRun pending ops, tb') ∧ tb'.error = false ∧
      (ops.getLast? = some .read → tb'.alloc.inuse = 0 ∧ tb'.head = 0) := by
  induction ops generalizing tb pending with
  | nil => exact ⟨tb, rfl, h.error, fun hl => by cases hl⟩
  | cons op ops ih =>
    cases op with
    | addTrace t =>
      obtain ⟨tb₁, h₁, hh₁⟩ := h.addTrace hchunk hsep t
      obtain ⟨tb', hrun, herr, hlast⟩ := ih hh₁
      refine ⟨tb', by rw [runTable, h₁, Option.bind_some, hrun]; rfl, herr, fun hl => ?_⟩
      -- the last call is a read, so it is one of the calls after `AddTrace`
      cases ops with
      | nil => cases hl
      | cons op' ops' => exact hlast (by rwa [List.getLast?_cons_cons] at hl)
    | read =>
      obtain ⟨hout, hh₁⟩ := h.read
      obtain ⟨tb', hrun, herr, hlast⟩ := ih hh₁
      refine ⟨tb', by rw [runTable, hrun, Option.map_some, hout]; rfl, herr, fun hl => ?_⟩
      cases ops with
      | nil =>
        -- this read was the last call: it left no trace pending
        cases hrun
        exact ⟨by rw [hh₁.inuse]; rfl, rfl⟩
      | cons op' ops' => exact hlast (by rwa [List.getLast?_cons_cons] at hl)

end Oracle

/-- A trace of two program counters, of an object of `size` bytes. -/
def twoFrames (size : ℕ) : StackTrace :=
  ⟨size, 2, [0x401000, 0x402000] ++ List.replicate 29 0, rfl⟩

end StackTraceTable

end Gperftools
