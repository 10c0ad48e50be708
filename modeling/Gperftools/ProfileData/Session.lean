import Gperftools.ProfileData

/-!
# Profiling sessions

What the file holds after a session: a successful `Start`, samples (`Add`)
and flushes (`FlushTable`), and `Stop`.

Every sample is counted exactly once, in the table or in a record of the
file (or of the buffer, on its way to the file): for every stack `σ`, the
counts of the records of `σ` written so far and the counts of the entries of
`σ` in the table add up to the samples of `σ` (`Inv`). Evicting an entry
moves its count from the table to the records; a sample adds one to the
entry of its stack, or takes the place of the victim, which is evicted
first. `Stop` evicts what is left in the table. The counting needs neither
that a stack has a single entry nor where it is: the entries of a stack are
summed.

The counts are 64-bit: the argument holds as long as no count wraps, which
fewer than 2⁶⁴ samples guarantee. With 2⁶⁴ samples of one stack, its count
wraps to `0`, and the samples are lost (`session_wrapped_file`).
-/

namespace Gperftools.ProfileData

/-! ## The buffer and the file -/

@[simp] theorem flushEvicted_table (p : ProfileData) : p.flushEvicted.table = p.table := by
  unfold flushEvicted; split <;> rfl

@[simp] theorem flushEvicted_enabled (p : ProfileData) : p.flushEvicted.enabled = p.enabled := by
  unfold flushEvicted; split <;> rfl

/-- Writing the buffer out loses no slot. -/
@[simp] theorem flushEvicted_file_append (p : ProfileData) :
    p.flushEvicted.file ++ p.flushEvicted.evict = p.file ++ p.evict := by
  unfold flushEvicted
  split
  · simp
  · simp_all

@[simp] theorem evictEntry_enabled (p : ProfileData) (e : Entry) :
    (p.evictEntry e).enabled = p.enabled := by
  unfold evictEntry; split <;> simp

/-- Evicting an entry appends its record. -/
@[simp] theorem evictEntry_file_append (p : ProfileData) (e : Entry) :
    (p.evictEntry e).file ++ (p.evictEntry e).evict = p.file ++ p.evict ++ e.slots := by
  unfold evictEntry
  split
  · rw [← List.append_assoc, flushEvicted_file_append]
  · simp

@[simp] theorem evictAll_enabled (p : ProfileData) (es : List Entry) :
    (p.evictAll es).enabled = p.enabled := by
  induction es generalizing p with
  | nil => rfl
  | cons e es ih => simp only [evictAll, List.foldl_cons] at ih ⊢; split <;> simp [ih]

/-- The records of the entries holding samples. -/
def recordsOf (es : List Entry) : List Entry := es.filter fun e => 0 < e.count

/-- Evicting a list of entries appends the records of those holding samples,
    in order. -/
theorem evictAll_file_append (p : ProfileData) (es : List Entry) :
    (p.evictAll es).file ++ (p.evictAll es).evict =
      p.file ++ p.evict ++ ((recordsOf es).map Entry.slots).flatten := by
  induction es generalizing p with
  | nil => simp [evictAll, recordsOf]
  | cons e es ih =>
    simp only [evictAll, recordsOf, List.foldl_cons, List.filter_cons] at ih ⊢
    split
    · rw [ih]; simp_all
    · rw [ih]; simp_all

/-- What `Stop` writes: the buffer, the records of the table and the trailer. -/
theorem stop_file_append {p : ProfileData} (hp : p.enabled = true) :
    p.stop.file = p.file ++ p.evict ++ ((recordsOf p.table.flatten).map Entry.slots).flatten ++
      trailer := by
  have h := evictAll_file_append p p.table.flatten
  simp only [stop, hp, Bool.not_true, Bool.false_eq_true, if_false]
  set q := p.evictAll p.table.flatten
  have hq : q.enabled = true := by simp [q, hp]
  have key : ∀ r : ProfileData, r.enabled = true →
      ({ r with evict := r.evict ++ trailer }.flushEvicted.reset).file = r.file ++ r.evict ++ trailer := by
    intro r hr
    have := flushEvicted_file_append { r with evict := r.evict ++ trailer }
    simp only [flushEvicted] at this ⊢
    split <;> simp_all [reset]
  split
  · rw [key _ (by simp [hq]), flushEvicted_file_append, h]
  · rw [key _ hq, h]

/-! ## Counting samples -/

/-- The samples of the stack `σ` an entry holds. -/
def Entry.weight (σ : List Slot) (e : Entry) : ℕ := if e.pcs = σ then e.count.toNat else 0

/-- The samples of `σ` held by a list of entries: records, or a bucket. -/
def weight (σ : List Slot) (es : List Entry) : ℕ := (es.map (Entry.weight σ)).sum

/-- The samples of `σ` held by the table. -/
def tableWeight (σ : List Slot) (t : List (List Entry)) : ℕ := (t.map (weight σ)).sum

theorem Entry.weight_of_count_eq_zero {e : Entry} (h : e.count = 0) (σ : List Slot) :
    e.weight σ = 0 := by
  simp [Entry.weight, h]

@[simp] theorem weight_nil (σ : List Slot) : weight σ [] = 0 := rfl

@[simp] theorem weight_cons (σ : List Slot) (e : Entry) (es : List Entry) :
    weight σ (e :: es) = e.weight σ + weight σ es := by
  simp [weight]

@[simp] theorem weight_append (σ : List Slot) (l₁ l₂ : List Entry) :
    weight σ (l₁ ++ l₂) = weight σ l₁ + weight σ l₂ := by
  simp [weight]

@[simp] theorem weight_singleton (σ : List Slot) (e : Entry) : weight σ [e] = e.weight σ := by
  simp [weight]

theorem weight_flatten (σ : List Slot) (t : List (List Entry)) :
    weight σ t.flatten = tableWeight σ t := by
  simp only [weight, tableWeight, List.map_flatten, List.sum_flatten, List.map_map]
  rfl

/-- Only the entries holding samples weigh. -/
theorem weight_recordsOf (σ : List Slot) (es : List Entry) : weight σ (recordsOf es) = weight σ es := by
  induction es with
  | nil => rfl
  | cons e es ih =>
    simp only [recordsOf] at ih ⊢
    by_cases he : 0 < e.count
    · simp [he, ih]
    · have : e.count = 0 := by simpa using he
      simp [he, ih, Entry.weight_of_count_eq_zero this]

/-- The weight of a list, by the records of the stack. -/
theorem weight_eq_sum_filter (σ : List Slot) (es : List Entry) :
    weight σ es = ((es.filter (·.pcs = σ)).map (·.count.toNat)).sum := by
  induction es with
  | nil => rfl
  | cons e es ih =>
    by_cases he : e.pcs = σ
    · simp [Entry.weight, he, ih]
    · simp [Entry.weight, he, ih]

theorem le_weight_of_mem {e : Entry} {es : List Entry} (h : e ∈ es) (σ : List Slot) :
    e.weight σ ≤ weight σ es :=
  List.le_sum_of_mem (List.mem_map_of_mem h)

theorem weight_le_tableWeight {row : List Entry} {t : List (List Entry)} (h : row ∈ t)
    (σ : List Slot) : weight σ row ≤ tableWeight σ t :=
  List.le_sum_of_mem (List.mem_map_of_mem h)

/-- Writing the entry `e'` at `(b, a)` trades the weight of the old entry
    for that of `e'`. -/
theorem tableWeight_set (σ : List Slot) {t : List (List Entry)} {b a : ℕ}
    (hb : b < t.length) (ha : a < (t.getD b []).length) (e' : Entry) :
    tableWeight σ (t.set b ((t.getD b []).set a e')) + ((t.getD b []).getD a Entry.zero).weight σ =
      tableWeight σ t + e'.weight σ := by
  have hrow := List.sum_map_set (Entry.weight σ) (t.getD b []) a e' Entry.zero ha
  have htab := List.sum_map_set (weight σ) t b ((t.getD b []).set a e') [] hb
  simp only [tableWeight, weight] at hrow htab ⊢
  omega

/-! ## Well-formed entries and tables -/

/-- A record of the file: at least one sample, a depth between `1` and
    `kMaxStackDepth`, and that many program counters. -/
def Entry.Valid (e : Entry) : Prop :=
  0 < e.count ∧ 1 ≤ e.depth.toNat ∧ e.depth.toNat ≤ kMaxStackDepth ∧
    e.stack.length = e.depth.toNat

instance : DecidablePred Entry.Valid := fun e =>
  inferInstanceAs (Decidable (0 < e.count ∧ _ ∧ _ ∧ _))

/-- An entry of the table: a record, or empty (no sample, and depth `0`, so
    that it matches no stack). -/
def Entry.Good (e : Entry) : Prop := e.Valid ∨ (e.count = 0 ∧ e.depth = 0)

instance : DecidablePred Entry.Good := fun e =>
  inferInstanceAs (Decidable (e.Valid ∨ _))

theorem Entry.Valid.pcs_eq {e : Entry} (h : e.Valid) : e.pcs = e.stack :=
  List.take_of_length_le h.2.2.2.le

theorem Entry.Good.valid {e : Entry} (h : e.Good) (hc : 0 < e.count) : e.Valid :=
  h.resolve_right fun h0 => by simp [h0.1] at hc

theorem Entry.Good.clear {e : Entry} (h : e.Good) : e.clear.Good := by
  unfold Entry.clear
  split
  · exact Or.inr ⟨rfl, rfl⟩
  · exact h

theorem Entry.weight_clear (e : Entry) (σ : List Slot) : e.clear.weight σ = 0 := by
  unfold Entry.clear
  split
  · exact Entry.weight_of_count_eq_zero rfl σ
  · exact Entry.weight_of_count_eq_zero (by simpa using ‹¬0 < e.count›) σ

/-- A sample of depth `d` matches a table entry only if the entry records
    exactly its stack: an empty entry has depth `0`. -/
theorem Entry.Good.matches_eq {e : Entry} (he : e.Good) {d : ℕ} {pcs : List Slot}
    (hd : 1 ≤ d) (hd' : d ≤ kMaxStackDepth) (hpcs : pcs.length = d)
    (hm : e.matches d pcs = true) : e.Valid ∧ e.pcs = pcs := by
  simp only [Entry.matches, Bool.and_eq_true, beq_iff_eq, List.all_eq_true, List.mem_range]
    at hm
  obtain ⟨hdepth, hstack⟩ := hm
  have hdn : e.depth.toNat = d := by
    rw [hdepth]; simp [kMaxStackDepth] at hd'; simp; omega
  have hv : e.Valid := he.resolve_right fun h0 => by simp [h0.2] at hdn; omega
  refine ⟨hv, ?_⟩
  rw [hv.pcs_eq]
  apply List.ext_getElem (by rw [hv.2.2.2, hdn, hpcs])
  intro i h₁ h₂
  have := hstack i (by omega)
  simpa [List.getElem?_eq_getElem h₁, List.getElem?_eq_getElem h₂] using this

/-- The shape of the table: `kBuckets` buckets of `kAssociativity` entries,
    each a record or empty. -/
structure TableOk (t : List (List Entry)) : Prop where
  length : t.length = kBuckets
  rows : ∀ row ∈ t, row.length = kAssociativity
  good : ∀ row ∈ t, ∀ e ∈ row, e.Good

theorem bucketOf_lt (pcs : List Slot) : bucketOf pcs < kBuckets := by
  unfold bucketOf
  rw [UInt64.toNat_mod]
  exact Nat.mod_lt _ (by decide)

theorem victim_lt (bucket : List Entry) : victim bucket < kAssociativity := by
  unfold victim
  -- the loop runs over the entries `1, 2, 3`, keeping its best or taking the entry
  simp only [show List.range' 1 (kAssociativity - 1) = [1, 2, 3] from rfl, List.foldl_cons,
    List.foldl_nil]
  split_ifs <;> decide

namespace TableOk

variable {t : List (List Entry)}

theorem getD_mem (h : TableOk t) {b : ℕ} (hb : b < kBuckets) : t.getD b [] ∈ t := by
  rw [List.getD_eq_getElem _ _ (h.length ▸ hb)]
  exact List.getElem_mem _

theorem getD_good (h : TableOk t) {b : ℕ} (hb : b < kBuckets) (a : ℕ) :
    ((t.getD b []).getD a Entry.zero).Good := by
  by_cases ha : a < (t.getD b []).length
  · rw [List.getD_eq_getElem _ _ ha]
    exact h.good _ (h.getD_mem hb) _ (List.getElem_mem _)
  · rw [List.getD_eq_default _ _ (by omega)]
    exact Or.inr ⟨rfl, rfl⟩

/-- Writing a well-formed entry keeps the table's shape. -/
theorem set (h : TableOk t) {b : ℕ} (hb : b < kBuckets) (a : ℕ) {e' : Entry} (he' : e'.Good) :
    TableOk (t.set b ((t.getD b []).set a e')) where
  length := by rw [List.length_set, h.length]
  rows row hrow := by
    rcases List.mem_or_eq_of_mem_set hrow with hrow | rfl
    · exact h.rows row hrow
    · rw [List.length_set, h.rows _ (h.getD_mem hb)]
  good row hrow e he := by
    rcases List.mem_or_eq_of_mem_set hrow with hrow | rfl
    · exact h.good row hrow e he
    · rcases List.mem_or_eq_of_mem_set he with he | rfl
      · exact h.good _ (h.getD_mem hb) e he
      · exact he'

theorem map_clear (h : TableOk t) : TableOk (t.map (List.map Entry.clear)) where
  length := by rw [List.length_map, h.length]
  rows _ hrow := by
    obtain ⟨row, hr, rfl⟩ := List.mem_map.1 hrow
    rw [List.length_map, h.rows row hr]
  good _ hrow _ he := by
    obtain ⟨row, hr, rfl⟩ := List.mem_map.1 hrow
    obtain ⟨e, he', rfl⟩ := List.mem_map.1 he
    exact (h.good row hr e he').clear

/-- The entries holding samples are records. -/
theorem recordsOf_valid (h : TableOk t) : ∀ e ∈ recordsOf t.flatten, e.Valid := by
  intro e he
  simp only [recordsOf, List.mem_filter, List.mem_flatten, decide_eq_true_eq] at he
  obtain ⟨⟨row, hrow, he⟩, hc⟩ := he
  exact (h.good row hrow e he).valid hc

end TableOk

theorem tableWeight_map_clear (σ : List Slot) (t : List (List Entry)) :
    tableWeight σ (t.map (List.map Entry.clear)) = 0 := by
  simp [tableWeight, weight, Function.comp_def, Entry.weight_clear]

/-! ## The invariant of a session -/

/-- The invariant of a session whose file begins with `hdr`, after `n σ`
    samples of each stack `σ`, having evicted the records `rs`: every sample
    is in a record or in the table. -/
structure Inv (hdr : List Slot) (n : List Slot → ℕ) (rs : List Entry) (p : ProfileData) :
    Prop where
  enabled : p.enabled = true
  table : TableOk p.table
  file : p.file ++ p.evict = hdr ++ (rs.map Entry.slots).flatten
  valid : ∀ e ∈ rs, e.Valid
  count : ∀ σ, weight σ rs + tableWeight σ p.table = n σ

/-- `Start` sets up the invariant, with no sample and no record. -/
theorem fresh_inv (frequency : ℤ) :
    Inv (header (Int.tdiv 1000000 frequency)) (fun _ => 0) [] (fresh frequency) where
  enabled := rfl
  table :=
    { length := List.length_replicate
      rows := fun row h => by
        rw [List.eq_of_mem_replicate h]
        rfl
      good := fun row h e he => by
        rw [List.eq_of_mem_replicate h] at he
        rw [List.eq_of_mem_replicate he]
        exact Or.inr ⟨rfl, rfl⟩ }
  file := by simp only [fresh, List.nil_append, List.map_nil, List.flatten_nil, List.append_nil]
  valid := by simp
  count σ := by
    have h0 : Entry.zero.weight σ = 0 := Entry.weight_of_count_eq_zero rfl σ
    simp only [fresh, tableWeight, weight, List.map_replicate, List.sum_replicate, h0, nsmul_zero,
      List.map_nil, List.sum_nil, zero_add]

/-- Restating the samples pointwise. -/
theorem Inv.of_count_eq {hdr : List Slot} {n n' : List Slot → ℕ} {rs : List Entry}
    {p : ProfileData} (h : Inv hdr n rs p) (hn : ∀ σ, n σ = n' σ) : Inv hdr n' rs p :=
  { h with count := fun σ => (h.count σ).trans (hn σ) }

/-- One sample more of the stack `pcs`. -/
def bump (n : List Slot → ℕ) (pcs : List Slot) (σ : List Slot) : ℕ :=
  n σ + if pcs = σ then 1 else 0

section Step

variable {hdr : List Slot} {n : List Slot → ℕ} {rs : List Entry} {p : ProfileData}
  {d : ℕ} {pcs : List Slot}

/-- Writing the entry `e'` at `(b, a)` of the table, in place of `e`, in a
    state `q` reached by evicting the records `new`: the invariant holds for
    the samples `n'` if the counts add up. -/
theorem Inv.write (h : Inv hdr n rs p) (n' : List Slot → ℕ) (new : List Entry)
    {q : ProfileData} (hq : q.enabled = true)
    (hfile : q.file ++ q.evict = p.file ++ p.evict ++ (new.map Entry.slots).flatten)
    (hnew : ∀ e ∈ new, e.Valid) {b a : ℕ} {bucket : List Entry} {e e' : Entry}
    (hb : b < kBuckets) (hbucket : p.table.getD b [] = bucket) (ha : a < bucket.length)
    (he : bucket.getD a Entry.zero = e) (he' : e'.Good)
    (hcount : ∀ σ, n σ + weight σ new + e'.weight σ = n' σ + e.weight σ) :
    Inv hdr n' (rs ++ new) { q with table := p.table.set b (bucket.set a e') } := by
  subst hbucket he
  refine ⟨hq, h.table.set hb a he', ?_, ?_, fun σ => ?_⟩
  · show q.file ++ q.evict = _
    rw [hfile, h.file]
    simp
  · intro x hx
    rcases List.mem_append.1 hx with hx | hx
    exacts [h.valid x hx, hnew x hx]
  · show weight σ (rs ++ new) + tableWeight σ (p.table.set b ((p.table.getD b []).set a e')) = n' σ
    have := tableWeight_set σ (h.table.length ▸ hb) ha e'
    have := h.count σ
    have := hcount σ
    rw [weight_append]
    omega

/-- A sample whose stack has an entry adds one to its count. The count does
    not wrap: the entry holds at most the `n pcs` samples of its stack. -/
theorem Inv.addSample_hit (h : Inv hdr n rs p) (hd : 1 ≤ d) (hd' : d ≤ kMaxStackDepth)
    (hpcs : pcs.length = d) (hn : n pcs + 1 < 2 ^ 64) {a : ℕ}
    (ha : (p.table.getD (bucketOf pcs) []).findIdx? (·.matches d pcs) = some a) :
    Inv hdr (bump n pcs) rs (p.addSample d pcs) := by
  have hb := bucketOf_lt pcs
  have hgood := h.table.getD_good hb a
  have hrow := h.table.getD_mem hb
  obtain ⟨ha_lt, hm, -⟩ := List.findIdx?_eq_some_iff_getElem.1 ha
  rw [← List.getD_eq_getElem _ Entry.zero ha_lt] at hm
  have he_mem := List.getD_eq_getElem _ Entry.zero ha_lt ▸ List.getElem_mem ha_lt
  simp only [addSample, ha]
  generalize hbucket : p.table.getD (bucketOf pcs) [] = bucket at *
  generalize he : bucket.getD a Entry.zero = e at *
  obtain ⟨hv, hpe⟩ := hgood.matches_eq hd hd' hpcs hm
  -- the entry holds at most the samples of its stack, so its count does not wrap
  have hle : e.count.toNat ≤ n pcs := calc
    e.count.toNat = e.weight pcs := by simp [Entry.weight, hpe]
    _ ≤ weight pcs bucket := le_weight_of_mem he_mem pcs
    _ ≤ tableWeight pcs p.table := weight_le_tableWeight hrow pcs
    _ ≤ n pcs := by have := h.count pcs; omega
  have hc' : (e.count + 1).toNat = e.count.toNat + 1 := by
    rw [UInt64.toNat_add, UInt64.toNat_one]
    omega
  have hv' : Entry.Valid { e with count := e.count + 1 } :=
    ⟨by rw [UInt64.lt_iff_toNat_lt, hc']; simp, hv.2⟩
  have := h.write (bump n pcs) [] h.enabled (by simp) (by simp) hb hbucket ha_lt he (Or.inl hv')
    fun σ => by
      by_cases hσ : pcs = σ
      · simp only [Entry.weight, Entry.pcs] at hpe ⊢
        simp [hpe, hσ, hc', bump]
        omega
      · simp only [Entry.weight, Entry.pcs] at hpe ⊢
        simp [hpe, hσ, bump]
  simpa using this

/-- A sample whose stack has no entry takes the place of the victim, whose
    record is written if it holds samples. -/
theorem Inv.addSample_miss (h : Inv hdr n rs p) (hd : 1 ≤ d) (hd' : d ≤ kMaxStackDepth)
    (hpcs : pcs.length = d)
    (ha : (p.table.getD (bucketOf pcs) []).findIdx? (·.matches d pcs) = none) :
    ∃ rs', Inv hdr (bump n pcs) rs' (p.addSample d pcs) := by
  have hb := bucketOf_lt pcs
  have hgood := h.table.getD_good hb (victim (p.table.getD (bucketOf pcs) []))
  have ha_lt : victim (p.table.getD (bucketOf pcs) []) < (p.table.getD (bucketOf pcs) []).length := by
    rw [h.table.rows _ (h.table.getD_mem hb)]
    exact victim_lt _
  simp only [addSample, ha]
  generalize hbucket : p.table.getD (bucketOf pcs) [] = bucket at *
  generalize he : bucket.getD (victim bucket) Entry.zero = e at *
  have hdn : d.toUInt64.toNat = d := by
    simp only [kMaxStackDepth] at hd'
    simp
    omega
  have hv' : Entry.Valid ⟨1, d.toUInt64, pcs⟩ :=
    ⟨show (0 : UInt64) < 1 by decide, by simpa [hdn], by simpa [hdn], by simp [hdn, hpcs]⟩
  have hw' : ∀ σ, Entry.weight σ ⟨1, d.toUInt64, pcs⟩ = if pcs = σ then 1 else 0 := by
    intro σ
    simp [Entry.weight, hv'.pcs_eq]
  split_ifs with hc
  · -- the victim holds samples: its record goes to the buffer
    refine ⟨rs ++ [e], h.write (bump n pcs) [e] (by simp [h.enabled]) (by simp) ?_ hb hbucket
      ha_lt he (Or.inl hv') fun σ => ?_⟩
    · simpa using hgood.valid hc
    · simp only [weight_singleton, hw', bump]
      omega
  · -- an empty victim is overwritten
    have hc0 : e.count = 0 := by simpa using hc
    have := h.write (bump n pcs) [] h.enabled (by simp) (by simp) hb hbucket ha_lt he
      (Or.inl hv') fun σ => by simp [hw', bump, Entry.weight_of_count_eq_zero hc0]
    exact ⟨rs, by simpa using this⟩

/-- `Add`'s table update keeps the invariant, with one more sample of its
    stack, as long as no count wraps. -/
theorem Inv.addSample (h : Inv hdr n rs p) (hd : 1 ≤ d) (hd' : d ≤ kMaxStackDepth)
    (hpcs : pcs.length = d) (hn : n pcs + 1 < 2 ^ 64) :
    ∃ rs', Inv hdr (bump n pcs) rs' (p.addSample d pcs) := by
  cases ha : (p.table.getD (bucketOf pcs) []).findIdx? (·.matches d pcs) with
  | some a => exact ⟨rs, h.addSample_hit hd hd' hpcs hn ha⟩
  | none => exact h.addSample_miss hd hd' hpcs ha

/-- `FlushTable` writes the records of the table and empties it. -/
theorem Inv.flushTable (h : Inv hdr n rs p) :
    Inv hdr n (rs ++ recordsOf p.table.flatten) p.flushTable := by
  simp only [ProfileData.flushTable, h.enabled, Bool.not_true, Bool.false_eq_true, if_false]
  refine ⟨by simp [h.enabled], by simpa using h.table.map_clear, ?_, ?_, fun σ => ?_⟩
  · rw [flushEvicted_file_append]
    show (p.evictAll p.table.flatten).file ++ (p.evictAll p.table.flatten).evict = _
    rw [evictAll_file_append, h.file]
    simp
  · intro x hx
    rcases List.mem_append.1 hx with hx | hx
    exacts [h.valid x hx, h.table.recordsOf_valid x hx]
  · simp only [flushEvicted_table, weight_append, weight_recordsOf, weight_flatten,
      tableWeight_map_clear, add_zero]
    exact h.count σ

end Step

/-! ## Sessions -/

/-- The stack that `Add(depth, stack)` samples: the first
    `min depth kMaxStackDepth` slots of `stack`. -/
def sampleOf (depth : ℤ) (stack : ℕ → Slot) : List Slot :=
  (List.range (min depth kMaxStackDepth).toNat).map stack

/-- The stack an event samples, if it is a sample. -/
def Event.sample? : Event → Option (List Slot)
  | .add depth stack => some (sampleOf depth stack)
  | .flushTable => none

/-- The event is a call of `Add`. -/
def Event.isAdd : Event → Bool
  | .add _ _ => true
  | .flushTable => false

/-- The number of samples of the stack `σ` among the events. -/
def tally (evs : List Event) (σ : List Slot) : ℕ :=
  evs.countP fun ev => ev.sample? = some σ

theorem tally_cons (ev : Event) (evs : List Event) (σ : List Slot) :
    tally (ev :: evs) σ = tally [ev] σ + tally evs σ := by
  simp [tally, List.countP_cons]
  omega

theorem tally_le_countP_isAdd (evs : List Event) (σ : List Slot) :
    tally evs σ ≤ evs.countP Event.isAdd := by
  apply List.countP_mono_left
  rintro (_ | _) _ <;> simp [Event.sample?, Event.isAdd]

/-- With a positive depth, `Add` records a sample of its stack. -/
theorem add_eq_ok {p : ProfileData} (hp : p.enabled = true) {depth : ℤ} (hd : 1 ≤ depth)
    (stack : ℕ → Slot) :
    p.add depth stack = .ok (p.addSample (min depth kMaxStackDepth).toNat (sampleOf depth stack)) := by
  have hmin : (if (kMaxStackDepth : ℤ) < depth then (kMaxStackDepth : ℤ) else depth) =
      min depth kMaxStackDepth := by
    rw [min_def]
    split_ifs <;> omega
  have hpos : ¬ min depth (kMaxStackDepth : ℤ) ≤ 0 := by
    simp only [kMaxStackDepth] at hmin ⊢
    omega
  simp only [add, hp, Bool.not_true, Bool.false_eq_true, if_false, hmin, hpos, sampleOf]

section Step

variable {hdr : List Slot} {n : List Slot → ℕ} {rs : List Entry} {p : ProfileData}

/-- `Add` keeps the invariant, with one more sample of its stack. -/
theorem Inv.add (h : Inv hdr n rs p) {depth : ℤ} (hd : 1 ≤ depth) (stack : ℕ → Slot)
    (hn : n (sampleOf depth stack) + 1 < 2 ^ 64) :
    ∃ rs' p', p.add depth stack = .ok p' ∧ Inv hdr (bump n (sampleOf depth stack)) rs' p' := by
  have hd₁ : 1 ≤ (min depth kMaxStackDepth).toNat := by
    simp only [kMaxStackDepth]
    omega
  have hd₂ : (min depth kMaxStackDepth).toNat ≤ kMaxStackDepth := by
    simp only [kMaxStackDepth]
    omega
  have hlen : (sampleOf depth stack).length = (min depth kMaxStackDepth).toNat := by
    simp [sampleOf]
  obtain ⟨rs', h'⟩ := h.addSample hd₁ hd₂ hlen hn
  exact ⟨rs', _, add_eq_ok h.enabled hd stack, h'⟩

/-- Every event keeps the invariant, counting its sample. -/
theorem Inv.apply (h : Inv hdr n rs p) (ev : Event)
    (hd : ∀ depth stack, ev = .add depth stack → 1 ≤ depth)
    (hn : ∀ σ, ev.sample? = some σ → n σ + 1 < 2 ^ 64) :
    ∃ rs' p', ev.apply p = .ok p' ∧ Inv hdr (fun σ => n σ + tally [ev] σ) rs' p' := by
  cases ev with
  | add depth stack =>
    obtain ⟨rs', p', hp', h'⟩ := h.add (hd depth stack rfl) stack (hn _ rfl)
    refine ⟨rs', p', hp', h'.of_count_eq fun σ => ?_⟩
    simp [bump, tally, Event.sample?]
  | flushTable =>
    exact ⟨_, _, rfl, h.flushTable.of_count_eq fun σ => by simp [tally, Event.sample?]⟩

theorem run_cons_of_apply {ev : Event} {q : ProfileData} (h : ev.apply p = .ok q)
    (evs : List Event) : p.run (ev :: evs) = q.run evs := by
  simp [run, h]
  rfl

/-- A run of events with positive depths keeps the invariant, counting its
    samples, as long as no count can wrap. -/
theorem Inv.run (h : Inv hdr n rs p) (evs : List Event)
    (hd : ∀ depth stack, Event.add depth stack ∈ evs → 1 ≤ depth)
    (hn : ∀ σ, n σ + evs.countP Event.isAdd < 2 ^ 64) :
    ∃ rs' r, p.run evs = .ok r ∧ Inv hdr (fun σ => n σ + tally evs σ) rs' r := by
  induction evs generalizing n rs p with
  | nil => exact ⟨rs, p, rfl, h.of_count_eq fun σ => by simp [tally]⟩
  | cons ev evs ih =>
    -- the first event is a sample only if it is an `Add`, which the bound counts
    have hev : ∀ σ, ev.sample? = some σ → n σ + 1 < 2 ^ 64 := by
      intro σ hσ
      have := hn σ
      cases ev with
      | add => simp [List.countP_cons, Event.isAdd] at this; omega
      | flushTable => simp [Event.sample?] at hσ
    obtain ⟨rs₁, p₁, hp₁, h₁⟩ :=
      h.apply ev (fun depth stack he => hd depth stack (he ▸ List.mem_cons_self)) hev
    have hn₁ : ∀ σ, n σ + tally [ev] σ + evs.countP Event.isAdd < 2 ^ 64 := by
      intro σ
      have h₀ := hn σ
      have h₁ := tally_le_countP_isAdd [ev] σ
      simp only [List.countP_cons, List.countP_nil] at h₀ h₁
      omega
    obtain ⟨rs₂, r, hr, h₂⟩ :=
      ih h₁ (fun depth stack he => hd depth stack (List.mem_cons_of_mem _ he)) hn₁
    refine ⟨rs₂, r, (run_cons_of_apply hp₁ evs).trans hr, h₂.of_count_eq fun σ => ?_⟩
    rw [tally_cons ev evs σ]
    omega

/-- What `Stop` writes: the header, the records evicted so far and those of
    the table, and the trailer. -/
theorem Inv.stop_file (h : Inv hdr n rs p) :
    p.stop.file = hdr ++ ((rs ++ recordsOf p.table.flatten).map Entry.slots).flatten ++ trailer := by
  rw [stop_file_append h.enabled, h.file]
  simp

end Step

theorem eq_fresh_of_start {p q : ProfileData} {opened : Bool} {frequency : ℤ}
    (h : p.start opened frequency = .ok (true, q)) : q = fresh frequency := by
  unfold start at h
  split_ifs at h <;> cases h
  rfl

/-- A session of fewer than 2⁶⁴ samples, of positive depths, writes the
    header, records and the trailer, and the counts of the records of every
    stack add up to its samples. -/
theorem session_file (p q : ProfileData) (opened : Bool) (frequency : ℤ) (evs : List Event)
    (hstart : p.start opened frequency = .ok (true, q))
    (hdepth : ∀ depth stack, Event.add depth stack ∈ evs → 1 ≤ depth)
    (hadds : evs.countP Event.isAdd < 2 ^ 64) :
    ∃ (r : ProfileData) (records : List Entry), q.run evs = .ok r ∧
      r.stop.file = header (Int.tdiv 1000000 frequency) ++ (records.map Entry.slots).flatten ++
        trailer ∧
      (∀ e ∈ records, e.Valid) ∧
      ∀ σ, ((records.filter (·.pcs = σ)).map (·.count.toNat)).sum = tally evs σ := by
  obtain rfl := eq_fresh_of_start hstart
  obtain ⟨rs, r, hr, h⟩ := (fresh_inv frequency).run evs hdepth fun σ => by simpa using hadds
  refine ⟨r, rs ++ recordsOf r.table.flatten, hr, h.stop_file, ?_, fun σ => ?_⟩
  · -- the records evicted during the session, and those `Stop` evicts
    intro e he
    rcases List.mem_append.1 he with he | he
    exacts [h.valid e he, h.table.recordsOf_valid e he]
  · rw [← weight_eq_sum_filter, weight_append, weight_recordsOf, weight_flatten, h.count σ]
    simp

/-- Five stacks of depth 1 that share bucket `0`, one more than it holds,
    a `FlushTable`, and the first stack again. -/
def evictingSession : List Event :=
  [.add 1 fun _ => 1024, .add 1 fun _ => 2048, .add 1 fun _ => 3072, .add 1 fun _ => 4096,
    .add 1 fun _ => 5120, .flushTable, .add 1 fun _ => 1024]

/-- The fifth sample evicts the first stack's entry to the buffer. -/
example : ((fresh 100).run (evictingSession.take 5)).map (·.evict) = .ok (header 10000 ++ [1, 1, 1024]) := by
  decide +kernel

theorem session_file_evicting :
    ∃ (r : ProfileData) (records : List Entry), (fresh 100).run evictingSession = .ok r ∧
      r.stop.file = header (Int.tdiv 1000000 100) ++ (records.map Entry.slots).flatten ++
        trailer ∧
      (∀ e ∈ records, e.Valid) ∧
      ∀ σ, ((records.filter (·.pcs = σ)).map (·.count.toNat)).sum = tally evictingSession σ :=
  session_file ⟨[], [], [], false⟩ (fresh 100) true 100 evictingSession rfl
    (fun depth stack h => by
      simp only [evictingSession, List.mem_cons, List.not_mem_nil, or_false] at h
      rcases h with h | h | h | h | h | h | h <;> cases h <;> exact le_rfl)
    (by decide)

/-! ## Counts that wrap -/

/-- A sample of depth `1` of the stack `[0]`. -/
def zeroSample : Event := .add 1 fun _ => 0

/-- The state after `c` samples of `[0]`, from the first one on: the entry
    of `[0]` at the head of bucket `0`, with the count `c` modulo 2⁶⁴. -/
def wrapState (frequency : ℤ) (c : ℕ) : ProfileData :=
  { fresh frequency with
    table := (fresh frequency).table.set 0
      ((List.replicate kAssociativity Entry.zero).set 0 ⟨c.toUInt64, 1, [0]⟩) }

theorem addSample_fresh (frequency : ℤ) :
    (fresh frequency).addSample 1 [0] = wrapState frequency 1 := by
  have hb : bucketOf [0] = 0 := by decide
  have hrow : (fresh frequency).table.getD 0 [] = List.replicate kAssociativity Entry.zero := rfl
  have hfind : (List.replicate kAssociativity Entry.zero).findIdx? (·.matches 1 [0]) = none := by
    decide
  have hv : victim (List.replicate kAssociativity Entry.zero) = 0 := by decide
  simp only [addSample, hb, hrow, hfind, hv]
  rfl

theorem addSample_wrapState (frequency : ℤ) (c : ℕ) :
    (wrapState frequency c).addSample 1 [0] = wrapState frequency (c + 1) := by
  have hb : bucketOf [0] = 0 := by decide
  have hrow : (wrapState frequency c).table.getD 0 [] =
      ⟨c.toUInt64, 1, [0]⟩ :: List.replicate 3 Entry.zero := rfl
  -- the entry of `[0]` matches on its depth and its stack, whatever its count
  have hfind : (⟨c.toUInt64, 1, [0]⟩ :: List.replicate 3 Entry.zero : List Entry).findIdx?
      (·.matches 1 [0]) = some 0 := rfl
  simp only [addSample, hb, hrow, hfind]
  simp [wrapState]
  rfl

theorem run_fresh_zeroSample (frequency : ℤ) (k : ℕ) :
    (fresh frequency).run (List.replicate (k + 1) zeroSample) = .ok (wrapState frequency (k + 1)) := by
  have hstep : ∀ p : ProfileData, p.enabled = true →
      zeroSample.apply p = .ok (p.addSample 1 [0]) := fun p hp =>
    add_eq_ok hp (by decide) _
  have hrun : ∀ k c, (wrapState frequency c).run (List.replicate k zeroSample) =
      .ok (wrapState frequency (c + k)) := by
    intro k
    induction k with
    | zero => intro c; rfl
    | succ k ih =>
      intro c
      rw [List.replicate_succ, run_cons_of_apply (hstep _ rfl), addSample_wrapState, ih,
        Nat.add_right_comm, Nat.add_assoc]
  rw [List.replicate_succ, run_cons_of_apply (hstep _ rfl), addSample_fresh, hrun, Nat.add_comm]

/-- Once the count of `[0]` has wrapped to `0`, the table holds no sample. -/
theorem recordsOf_wrapState (frequency : ℤ) {c : ℕ} (hc : c.toUInt64 = 0) :
    recordsOf (wrapState frequency c).table.flatten = [] := by
  have hzero : ∀ e ∈ (List.replicate kAssociativity Entry.zero), e.count = 0 := by
    intro e he
    rw [List.eq_of_mem_replicate he]
    rfl
  rw [recordsOf, List.filter_eq_nil_iff]
  intro e he
  simp only [List.mem_flatten] at he
  obtain ⟨row, hrow, he⟩ := he
  have : e.count = 0 := by
    rcases List.mem_or_eq_of_mem_set hrow with hrow | rfl
    · exact hzero e (List.eq_of_mem_replicate hrow ▸ he)
    · rcases List.mem_or_eq_of_mem_set he with he | rfl
      · exact hzero e he
      · exact hc
  simp [this]

theorem session_wrapped_file :
    ¬ ∀ (p q : ProfileData) (opened : Bool) (frequency : ℤ) (evs : List Event),
      p.start opened frequency = .ok (true, q) →
      (∀ depth stack, Event.add depth stack ∈ evs → 1 ≤ depth) →
      ∃ (r : ProfileData) (records : List Entry), q.run evs = .ok r ∧
        r.stop.file = header (Int.tdiv 1000000 frequency) ++ (records.map Entry.slots).flatten ++
          trailer ∧
        (∀ e ∈ records, e.Valid) ∧
        ∀ σ, ((records.filter (·.pcs = σ)).map (·.count.toNat)).sum = tally evs σ := by
  intro hall
  -- 2⁶⁴ samples of `[0]`
  obtain ⟨r, records, hr, hfile, -, hcount⟩ := hall ⟨[], [], [], false⟩ (fresh 100) true 100
    (List.replicate (2 ^ 64 - 1 + 1) zeroSample) rfl fun depth stack h => by
      obtain ⟨rfl, -⟩ := Event.add.inj (List.eq_of_mem_replicate h)
      decide
  rw [run_fresh_zeroSample] at hr
  cases hr
  -- `Stop` writes no record: the count of `[0]` wrapped to `0`
  rw [stop_file_append rfl, recordsOf_wrapState 100 (by decide)] at hfile
  change [] ++ header (Int.tdiv 1000000 100) ++ ([].map Entry.slots).flatten ++ trailer = _ at hfile
  have hnil : records = [] := by
    simp [List.flatten_eq_nil_iff, Entry.slots] at hfile
    exact List.eq_nil_iff_forall_not_mem.2 hfile
  have hsample : zeroSample.sample? = some [0] := rfl
  have := hcount [0]
  rw [hnil, tally, List.countP_replicate] at this
  simp [hsample] at this

end Gperftools.ProfileData
