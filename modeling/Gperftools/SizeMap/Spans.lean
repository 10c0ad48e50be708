import Gperftools.SizeMap

/-!
# The span of a size class

The span `Init` gives a size is found by two loops over multiples of the
smallest span size `mss`: the inner one (`fitSpan`) until at most an eighth
of the span is left over, the outer one (`spanLoop`) until the span holds
`blocksToMove` objects. What the loops compute, and how it depends on the
transfer size `flags`:

* `fitSpan_fit`, `spanLoop_spec`: the loops stop at a span meeting their
  conditions, well within their fuel, as the code's loops do;
* `spanBytes_mono`: a larger transfer size never gives a smaller span;
* `spanBytes_of_lt_size`, `spanBytes_of_le_mss`: the transfer size does not
  matter for sizes above 8 KiB, nor for any size once `mss` is 16 KiB;
* `spanBytes_spec` puts these together for the span of every size.

The spans the outer loop visits do not depend on the transfer size, only
where it stops does (`spanLoop_eq_findSpan`). So the span of a size changes
only at a few transfer sizes (`spanThresholds`): between two of them it stays
(`spanBytes_eq_of_thresholds`).
-/

namespace Gperftools.SizeMap

variable {mss size btm : ℕ}

theorem le_fitSpan : ∀ fuel psize, psize ≤ fitSpan mss size fuel psize
  | 0, _ => le_rfl
  | fuel + 1, psize => by
    unfold fitSpan
    split_ifs
    · exact (Nat.le_add_right _ _).trans (le_fitSpan fuel _)
    · exact le_rfl

/-- The inner loop stops at a span with at most an eighth left over, once
    its fuel can reach eight objects. -/
theorem fitSpan_fit (hsize : 0 < size) : ∀ fuel psize, 8 * size ≤ psize + fuel * mss →
    fitSpan mss size fuel psize % size ≤ fitSpan mss size fuel psize >>> 3
  | 0, psize, h => by
    rw [fitSpan, Nat.shiftRight_eq_div_pow]
    have := Nat.mod_lt psize hsize
    omega
  | fuel + 1, psize, h => by
    unfold fitSpan
    split_ifs with hc
    · exact fitSpan_fit hsize fuel _ (by have := Nat.add_one_mul fuel mss; omega)
    · exact not_lt.1 hc

/-- A span that fits is at least one object. -/
theorem le_of_fit {p : ℕ} (hp : 0 < p) (hfit : p % size ≤ p >>> 3) : size ≤ p := by
  by_contra hlt
  rw [Nat.mod_eq_of_lt (not_le.1 hlt), Nat.shiftRight_eq_div_pow] at hfit
  omega

theorem le_spanLoop : ∀ fuel psize, psize ≤ spanLoop mss size btm fuel psize
  | 0, _ => le_rfl
  | fuel + 1, psize => by
    have h1 : psize ≤ fitSpan mss size kMaxSize (psize + mss) :=
      (Nat.le_add_right _ _).trans (le_fitSpan _ _)
    simp only [spanLoop]
    split_ifs
    · exact h1.trans (le_spanLoop fuel _)
    · exact h1

/-- The outer loop stops at a span holding `btm` objects, once its fuel can
    reach them. -/
theorem spanLoop_spec (hsize : 0 < size) :
    ∀ fuel psize, btm * size ≤ psize + fuel * mss → btm ≤ spanLoop mss size btm fuel psize / size
  | 0, psize, h => by
    rw [spanLoop]
    exact (Nat.le_div_iff_mul_le hsize).2 (by simpa using h)
  | fuel + 1, psize, h => by
    have hq : psize + mss ≤ fitSpan mss size kMaxSize (psize + mss) := le_fitSpan _ _
    simp only [spanLoop]
    split_ifs with hc
    · exact spanLoop_spec hsize fuel _ (by have := Nat.add_one_mul fuel mss; omega)
    · exact not_lt.1 hc

/-- The outer loop grows with the objects it asks for. -/
theorem spanLoop_mono {btm' : ℕ} (hb : btm ≤ btm') :
    ∀ fuel psize, spanLoop mss size btm fuel psize ≤ spanLoop mss size btm' fuel psize
  | 0, _ => le_rfl
  | fuel + 1, psize => by
    simp only [spanLoop]
    split_ifs with h1 h2 h2
    · exact spanLoop_mono hb fuel _
    · omega
    · exact le_spanLoop fuel _
    · exact le_rfl

/-- The outer loop stops after its first round when that round's span holds
    enough objects. -/
theorem spanLoop_of_le {fuel psize : ℕ}
    (h : btm ≤ fitSpan mss size kMaxSize (psize + mss) / size) :
    spanLoop mss size btm (fuel + 1) psize = fitSpan mss size kMaxSize (psize + mss) := by
  rw [spanLoop, if_neg (not_lt.2 h)]

theorem numMoveSize_mono {flags flags' : ℕ} (h : flags ≤ flags') (size : ℕ) :
    numMoveSize flags size ≤ numMoveSize flags' size := by
  simp only [numMoveSize]
  split_ifs <;> omega

/-- A transfer never asks for more than 64 KiB of objects, so a quarter of it
    for no more than 16 KiB. -/
theorem numMoveSize_div_four_le (flags size : ℕ) :
    numMoveSize flags size / 4 ≤ 16384 / size := by
  have hq : 65536 / size / 4 = 16384 / size := by
    rw [Nat.div_div_eq_div_mul, Nat.mul_comm, ← Nat.div_div_eq_div_mul]
  simp only [numMoveSize]
  split_ifs with h0 h1 h2 h2
  · simp
  · -- at most one object: none is left after the quarter
    rw [show flags / 4 = 0 by omega]
    exact Nat.zero_le _
  · exact Nat.zero_le _
  · exact (Nat.div_le_div_right h2.le).trans hq.le
  · exact hq.le

/-- When the first round already holds 16 KiB of objects, the span does not
    depend on the transfer size. -/
theorem spanBytes_eq_fitSpan (flags : ℕ)
    (h : 16384 / size ≤ fitSpan mss size kMaxSize mss / size) :
    spanBytes mss flags size = fitSpan mss size kMaxSize mss := by
  have hb := (numMoveSize_div_four_le flags size).trans h
  change spanLoop mss size (numMoveSize flags size / 4) ((kMaxSize - 1) + 1) 0 = _
  rw [spanLoop_of_le (by simpa using hb), Nat.zero_add]

/-- Sizes above 8 KiB get their span regardless of the transfer size. -/
theorem spanBytes_of_lt_size (flags : ℕ) (hmss : 8 ≤ mss) (h1 : 8192 < size)
    (h2 : size ≤ kMaxSize) : spanBytes mss flags size = fitSpan mss size kMaxSize mss := by
  apply spanBytes_eq_fitSpan
  have h8 : 8 * size ≤ mss + kMaxSize * mss := by
    simp only [kMaxSize] at h2 ⊢
    omega
  have hfit : fitSpan mss size kMaxSize mss % size ≤ fitSpan mss size kMaxSize mss >>> 3 :=
    fitSpan_fit (by omega) kMaxSize mss h8
  have hpos : 0 < fitSpan mss size kMaxSize mss := by
    have : mss ≤ fitSpan mss size kMaxSize mss := le_fitSpan kMaxSize mss
    omega
  have hge := le_of_fit hpos hfit
  have : 16384 / size ≤ 1 := by
    rw [Nat.div_le_iff_le_mul_add_pred (by omega)]
    omega
  exact this.trans ((Nat.one_le_div_iff (by omega)).2 hge)

/-- Once the smallest span is 16 KiB, no size's span depends on the
    transfer size. -/
theorem spanBytes_of_le_mss (flags : ℕ) (hmss : 16384 ≤ mss) :
    spanBytes mss flags size = fitSpan mss size kMaxSize mss := by
  apply spanBytes_eq_fitSpan
  exact Nat.div_le_div_right (hmss.trans (le_fitSpan _ _))

/-- A larger transfer size never gives a smaller span. -/
theorem spanBytes_mono {flags flags' : ℕ} (h : flags ≤ flags') :
    spanBytes mss flags size ≤ spanBytes mss flags' size :=
  spanLoop_mono (Nat.div_le_div_right (numMoveSize_mono h size)) _ _

/-- The outer loop ends on a span that fits, from one that fits: every
    round ends with the inner loop, which stops at a fitting span. -/
theorem spanLoop_fit (hsize : 0 < size) (hm : 8 * size ≤ mss + kMaxSize * mss) :
    ∀ fuel psize, psize % size ≤ psize >>> 3 →
      spanLoop mss size btm fuel psize % size ≤ spanLoop mss size btm fuel psize >>> 3
  | 0, _, h => h
  | fuel + 1, psize, h => by
    have hq : fitSpan mss size kMaxSize (psize + mss) % size ≤ fitSpan mss size kMaxSize (psize + mss) >>> 3 :=
      fitSpan_fit hsize kMaxSize (psize + mss) (by omega)
    simp only [spanLoop]
    split_ifs
    · exact spanLoop_fit hsize hm fuel _ hq
    · exact hq

/-- The span `Init` gives every size up to `kMaxSize`, from a smallest span
    of at least 8 bytes: at most an eighth of it is left over, it holds a
    quarter of a transfer (so both loops stop on their own conditions,
    within their fuel), it grows with the transfer size, and above 8 KiB it
    is the first span that fits, whatever the transfer size. -/
theorem spanBytes_spec (hmss : 8 ≤ mss) (hsize : 0 < size) (hmax : size ≤ kMaxSize) (flags : ℕ) :
    spanBytes mss flags size % size ≤ spanBytes mss flags size >>> 3 ∧
      numMoveSize flags size / 4 ≤ spanBytes mss flags size / size ∧
      (∀ flags', flags ≤ flags' → spanBytes mss flags size ≤ spanBytes mss flags' size) ∧
      (8192 < size → spanBytes mss flags size = fitSpan mss size kMaxSize mss) := by
  have hm : 8 * size ≤ mss + kMaxSize * mss := by
    simp only [kMaxSize] at hmax ⊢
    omega
  -- a quarter of a transfer is at most 16 KiB of objects, far below the fuel
  have hbtm : numMoveSize flags size / 4 * size ≤ 0 + kMaxSize * mss := by
    have hq := Nat.mul_le_mul_right size (numMoveSize_div_four_le flags size)
    have hd := Nat.div_mul_le_self 16384 size
    simp only [kMaxSize]
    omega
  exact ⟨spanLoop_fit hsize hm kMaxSize 0 (by simp), spanLoop_spec hsize kMaxSize 0 hbtm,
    fun _ h => spanBytes_mono h, fun h => spanBytes_of_lt_size flags hmss h hmax⟩

/-- The class of 48 bytes with spans of 8 KiB and the default transfer
    size. -/
theorem spanBytes_spec_default :
    spanBytes 8192 32 48 % 48 ≤ spanBytes 8192 32 48 >>> 3 ∧
      numMoveSize 32 48 / 4 ≤ spanBytes 8192 32 48 / 48 ∧
      (∀ flags', 32 ≤ flags' → spanBytes 8192 32 48 ≤ spanBytes 8192 flags' 48) ∧
      (8192 < 48 → spanBytes 8192 32 48 = fitSpan 8192 48 kMaxSize 8192) :=
  spanBytes_spec (by decide) (by decide) (by decide) 32

/-- The spans the outer loop visits from `psize`, up to the first holding
    `bound` objects. -/
def spanChain (minSpanSize size bound : ℕ) : ℕ → ℕ → List ℕ
  | 0, _ => []
  | fuel + 1, psize =>
    let psize := fitSpan minSpanSize size kMaxSize (psize + minSpanSize)
    if psize / size < bound then psize :: spanChain minSpanSize size bound fuel psize else [psize]

/-- The first of `spans` holding `blocksToMove` objects, or the last one. -/
def findSpan (size blocksToMove : ℕ) : ℕ → List ℕ → ℕ
  | psize, [] => psize
  | _, psize :: spans =>
    if psize / size < blocksToMove then findSpan size blocksToMove psize spans else psize

/-- The outer loop stops at the first span of its chain holding enough
    objects. -/
theorem spanLoop_eq_findSpan {bound : ℕ} (hb : btm ≤ bound) :
    ∀ fuel psize, spanLoop mss size btm fuel psize =
      findSpan size btm psize (spanChain mss size bound fuel psize)
  | 0, _ => rfl
  | fuel + 1, psize => by
    simp only [spanLoop, spanChain]
    by_cases hlt : fitSpan mss size kMaxSize (psize + mss) / size < btm
    · rw [if_pos hlt, if_pos (hlt.trans_le hb), findSpan, if_pos hlt,
        spanLoop_eq_findSpan hb fuel]
    · rw [if_neg hlt]
      split_ifs <;> rw [findSpan, if_neg hlt]

/-- Only which spans are too small decides where the search stops. -/
theorem findSpan_congr {b b' : ℕ} :
    ∀ (d : ℕ) (spans : List ℕ), (∀ c ∈ spans, (c / size < b ↔ c / size < b')) →
      findSpan size b d spans = findSpan size b' d spans
  | _, [], _ => rfl
  | _, c :: spans, h => by
    have hc := h c List.mem_cons_self
    have ih := findSpan_congr c spans fun c' hc' => h c' (List.mem_cons_of_mem c hc')
    simp only [findSpan]
    by_cases hlt : c / size < b
    · rw [if_pos hlt, if_pos (hc.1 hlt), ih]
    · rw [if_neg hlt, if_neg (mt hc.2 hlt)]

/-- The span of a size, found in the chain of spans up to 16 KiB of
    objects. -/
theorem spanBytes_eq_findSpan (flags : ℕ) :
    spanBytes mss flags size =
      findSpan size (numMoveSize flags size / 4) 0 (spanChain mss size (16384 / size) kMaxSize 0) :=
  spanLoop_eq_findSpan (numMoveSize_div_four_le flags size) _ _

/-- A transfer asks for the transfer size, capped at the objects of 64 KiB
    and raised to 2. -/
theorem numMoveSize_eq_min (flags : ℕ) (hsize : 0 < size) :
    numMoveSize flags size = min flags (numMoveSize 65536 size) := by
  have := Nat.div_le_self 65536 size
  simp only [numMoveSize, if_neg hsize.ne']
  split_ifs <;> omega

/-- The transfer sizes at which a quarter of the transfer first exceeds the
    objects of a span of the chain: the span of `size` changes only there. -/
def spanThresholds (minSpanSize size : ℕ) : List ℕ :=
  ((spanChain minSpanSize size (16384 / size) kMaxSize 0).map fun c => 4 * (c / size + 1)).filter
    fun t => t ≤ numMoveSize 65536 size

/-- A span holds too few objects for a quarter of the transfer exactly from
    its threshold on. -/
theorem lt_numMoveSize_div_four_iff (flags c : ℕ) (hsize : 0 < size) :
    c / size < numMoveSize flags size / 4 ↔
      4 * (c / size + 1) ≤ flags ∧ 4 * (c / size + 1) ≤ numMoveSize 65536 size := by
  rw [numMoveSize_eq_min flags hsize]
  omega

/-- Between two transfer sizes with no threshold of `size` from the first
    (excluded) to the second, the span of `size` stays. -/
theorem spanBytes_eq_of_thresholds {flags flags' : ℕ} (hsize : 0 < size) (hle : flags' ≤ flags)
    (h : ∀ t ∈ spanThresholds mss size, ¬ (flags' < t ∧ t ≤ flags)) :
    spanBytes mss flags size = spanBytes mss flags' size := by
  rw [spanBytes_eq_findSpan, spanBytes_eq_findSpan]
  apply findSpan_congr
  intro c hc
  rw [lt_numMoveSize_div_four_iff flags c hsize, lt_numMoveSize_div_four_iff flags' c hsize]
  by_cases hcap : 4 * (c / size + 1) ≤ numMoveSize 65536 size
  · -- a threshold of the chain: not crossed between the two
    have ht := h _ (List.mem_filter.2 ⟨List.mem_map_of_mem hc, by simpa using hcap⟩)
    constructor <;> intro hc' <;> refine ⟨?_, hcap⟩ <;> omega
  · exact ⟨fun h' => absurd h'.2 hcap, fun h' => absurd h'.2 hcap⟩

end Gperftools.SizeMap
