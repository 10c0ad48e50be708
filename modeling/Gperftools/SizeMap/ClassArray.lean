import Gperftools.SizeMap.Classes
import Gperftools.Lib.List
import Mathlib.Data.List.Chain

/-!
# The table from sizes to classes

`Init` fills `class_array_` class after class: the class `c`, of largest
size `M c`, takes the indices of the sizes from the end of the class before
to `M c`, in steps of 8. `ClassIndex` counts sizes in steps of 8 up to
`kMaxSmallSize` and of 128 above, so the fill is exact when the largest
sizes of the classes are multiples of these steps (`SizeSteps`): then
`SizeClass(s)` is the first class whose largest size is at least `s`
(`sizeClass_spec`), and the checks `Init` makes of the table pass
(`checkSizes_ok`, `checkAlignments_ok`).
-/

namespace Gperftools.SizeMap

/-- A largest size of a class is a multiple of the index step at its size. -/
def SizeSteps (m : ℕ) : Prop := (m ≤ kMaxSmallSize → m % 8 = 0) ∧ (kMaxSmallSize < m → m % 128 = 0)

instance (m : ℕ) : Decidable (SizeSteps m) := inferInstanceAs (Decidable (_ ∧ _))

-- the offset is left as `127 + 15360`: the kernel unfolds `s + 15487` one
-- successor at a time when it compares the two
theorem classIndex_eq (s : ℕ) :
    classIndex s = if s ≤ 1024 then (s + 7) / 8 else (s + 127 + 15360) / 128 := by
  simp only [classIndex, kMaxSmallSize, Nat.shiftRight_eq_div_pow, Nat.shiftLeft_eq]

theorem classIndex_mono {s t : ℕ} (h : s ≤ t) : classIndex s ≤ classIndex t := by
  rw [classIndex_eq, classIndex_eq]
  split_ifs <;> omega

theorem classIndex_add_eight_le (s : ℕ) : classIndex (s + 8) ≤ classIndex s + 1 := by
  rw [classIndex_eq, classIndex_eq]
  split_ifs <;> omega

/-- Below a largest size, the index tells the sizes apart. -/
theorem classIndex_le_iff {s m : ℕ} (hm : SizeSteps m) : classIndex s ≤ classIndex m ↔ s ≤ m := by
  obtain ⟨h1, h2⟩ := hm
  simp only [kMaxSmallSize] at h1 h2
  rw [classIndex_eq, classIndex_eq]
  split_ifs <;> omega

/-- Above a largest size, the index tells the sizes apart. -/
theorem classIndex_add_eight_le_iff {s m : ℕ} (hm : SizeSteps m) :
    classIndex (m + 8) ≤ classIndex s ↔ m < s := by
  obtain ⟨h1, h2⟩ := hm
  simp only [kMaxSmallSize] at h1 h2
  rw [classIndex_eq, classIndex_eq]
  split_ifs <;> omega

/-- `GetSizeClass` finds the class of every size up to `kMaxSize`. -/
theorem getSizeClass_of_le (m : SizeMap) {s : ℕ} (hs : s ≤ kMaxSize) :
    m.getSizeClass s = some (m.sizeClass s) := by
  simp only [getSizeClass, sizeClass, classIndexMaybe, classIndex]
  split_ifs <;> simp_all

theorem SizeSteps.mod_eight {m : ℕ} (hm : SizeSteps m) : m % 8 = 0 := by
  obtain ⟨h1, h2⟩ := hm
  by_cases h : m ≤ kMaxSmallSize
  · exact h1 h
  · have := h2 (not_le.1 h)
    omega

/-- The fill of one class writes the class at the indices from that of `s`
    to that of `maxSize`: the sizes in between, in steps of 8, reach every
    index between. -/
theorem fillClass_apply {c maxSize : ℕ} (hm : maxSize % 8 = 0) :
    ∀ (fuel s : ℕ) (arr : ℕ → ℕ) (idx : ℕ), s % 8 = 0 → maxSize < s + 8 * fuel →
      fillClass c maxSize fuel s arr idx =
        if s ≤ maxSize ∧ classIndex s ≤ idx ∧ idx ≤ classIndex maxSize then c else arr idx
  | 0, s, arr, idx, _, hf => by
    rw [fillClass, if_neg (by omega)]
  | fuel + 1, s, arr, idx, hs, hf => by
    rw [fillClass]
    by_cases hsm : s ≤ maxSize
    · rw [if_pos hsm, fillClass_apply hm fuel (s + kAlignment) _ idx
        (by simp only [kAlignment]; omega) (by simp only [kAlignment]; omega)]
      simp only [kAlignment]
      have hstep := classIndex_add_eight_le s
      have hmono : classIndex s ≤ classIndex (s + 8) := classIndex_mono (Nat.le_add_right s 8)
      by_cases hidx : idx = classIndex s
      · subst hidx
        have := classIndex_mono hsm
        split_ifs <;> simp_all
      · rw [Function.update_of_ne hidx]
        -- the rest of the class starts one index on, or is empty when `s` is
        -- its largest size
        refine if_congr ?_ rfl rfl
        rcases hsm.lt_or_eq with hlt | rfl
        · omega
        · omega
    · rw [if_neg hsm, if_neg (by omega)]

/-- The classes still to fill, from `nextSize` on: increasing largest
    sizes, from `nextSize`, up to `kMaxSize`, each a multiple of its index
    step. -/
structure FillFrom (nextSize : ℕ) (ms : List ℕ) : Prop where
  next_mod : nextSize % 8 = 0
  increasing : ms.Pairwise (· < ·)
  bounds : ∀ m ∈ ms, nextSize ≤ m ∧ m ≤ kMaxSize ∧ SizeSteps m

/-- After the first class, the rest start 8 bytes past its largest size. -/
theorem FillFrom.tail {nextSize m : ℕ} {ms : List ℕ} (h : FillFrom nextSize (m :: ms)) :
    FillFrom (m + kAlignment) ms := by
  have hm8 := (h.bounds m List.mem_cons_self).2.2.mod_eight
  refine ⟨by simp only [kAlignment]; omega, (List.pairwise_cons.1 h.increasing).2, ?_⟩
  intro x hx
  obtain ⟨-, hxmax, hxsteps⟩ := h.bounds x (List.mem_cons_of_mem m hx)
  have := hxsteps.mod_eight
  have := List.rel_of_pairwise_cons h.increasing hx
  exact ⟨by simp only [kAlignment]; omega, hxmax, hxsteps⟩

/-- Some of the classes, in order, still make a table to fill. -/
theorem FillFrom.sublist {nextSize : ℕ} {ms ms' : List ℕ} (h : FillFrom nextSize ms)
    (hs : ms'.Sublist ms) : FillFrom nextSize ms' :=
  ⟨h.next_mod, h.increasing.sublist hs, fun m hm => h.bounds m (hs.subset hm)⟩

/-- The fill of one class of the table reaches all its sizes. -/
theorem fillClass_head {nextSize m : ℕ} {ms : List ℕ} (h : FillFrom nextSize (m :: ms))
    (c : ℕ) (arr : ℕ → ℕ) (idx : ℕ) :
    fillClass c m (kMaxSize / kAlignment + 1) nextSize arr idx =
      if nextSize ≤ m ∧ classIndex nextSize ≤ idx ∧ idx ≤ classIndex m then c else arr idx := by
  obtain ⟨-, hmax, hsteps⟩ := h.bounds m List.mem_cons_self
  refine fillClass_apply hsteps.mod_eight _ _ _ _ h.next_mod ?_
  simp only [kMaxSize, kAlignment] at hmax ⊢
  omega

/-- The fill of the classes from `c` on leaves alone the indices below that
    of `nextSize`. -/
theorem fillClassArray_of_lt :
    ∀ {ms : List ℕ} {nextSize : ℕ}, FillFrom nextSize ms →
      ∀ (c : ℕ) (arr : ℕ → ℕ) (idx : ℕ), idx < classIndex nextSize →
        fillClassArray ms c nextSize arr idx = arr idx
  | [], _, _, _, _, _, _ => rfl
  | m :: ms, nextSize, h, c, arr, idx, hidx => by
    have hnm := (h.bounds m List.mem_cons_self).1
    have hnext : classIndex nextSize ≤ classIndex (m + kAlignment) :=
      classIndex_mono (by simp only [kAlignment]; omega)
    rw [fillClassArray, fillClassArray_of_lt h.tail _ _ idx (hidx.trans_le hnext),
      fillClass_head h, if_neg (by omega)]

/-- After the fill of the classes from `c` on, the index of a size `t` from
    `nextSize` up to the last largest size holds `c` plus the number of
    classes whose largest size is below `t`: the first class whose largest
    size is at least `t`. -/
theorem fillClassArray_classIndex :
    ∀ {ms : List ℕ} {nextSize : ℕ}, FillFrom nextSize ms →
      ∀ (c : ℕ) (arr : ℕ → ℕ) (t : ℕ), classIndex nextSize ≤ classIndex t → (∃ m ∈ ms, t ≤ m) →
        fillClassArray ms c nextSize arr (classIndex t) = c + ms.countP (fun m => decide (m < t))
  | [], _, _, _, _, _, _, ⟨_, hm, _⟩ => absurd hm List.not_mem_nil
  | m :: ms, nextSize, h, c, arr, t, hlo, ⟨x, hx, htx⟩ => by
    obtain ⟨hnm, -, hsteps⟩ := h.bounds m List.mem_cons_self
    rw [fillClassArray]
    by_cases hmt : m < t
    · -- `t` is past this class: its index is left to the classes after
      have hx' : x ∈ ms :=
        (List.mem_cons.1 hx).resolve_left (by rintro rfl; exact absurd htx (not_le.2 hmt))
      have hnext : classIndex (m + kAlignment) ≤ classIndex t :=
        (classIndex_add_eight_le_iff hsteps).2 hmt
      rw [fillClassArray_classIndex h.tail (c + 1) _ t hnext ⟨x, hx', htx⟩,
        List.countP_cons_of_pos (by simpa using hmt)]
      omega
    · -- `t` is in this class, and the classes after start above it
      have hti : classIndex t < classIndex (m + kAlignment) :=
        not_le.1 fun hle => hmt ((classIndex_add_eight_le_iff hsteps).1 hle)
      rw [fillClassArray_of_lt h.tail _ _ _ hti, fillClass_head h,
        if_pos ⟨hnm, hlo, (classIndex_le_iff hsteps).2 (not_lt.1 hmt)⟩,
        List.countP_lt_eq_zero h.increasing (not_lt.1 hmt)]
      rfl

-- decided through neighbours, as `Pairwise` would compare every two sizes
instance (nextSize : ℕ) (ms : List ℕ) : Decidable (FillFrom nextSize ms) :=
  decidable_of_iff
    (nextSize % 8 = 0 ∧ ms.IsChain (· < ·) ∧ ∀ m ∈ ms, nextSize ≤ m ∧ m ≤ kMaxSize ∧ SizeSteps m)
    ⟨fun ⟨h1, h2, h3⟩ => ⟨h1, List.isChain_iff_pairwise.1 h2, h3⟩,
      fun ⟨h1, h2, h3⟩ => ⟨h1, List.isChain_iff_pairwise.2 h2, h3⟩⟩

/-- The largest sizes of the classes, from class 1, of a table that passes
    the checks of `Init`: the fill reaches every size up to `kMaxSize`, no
    class is empty, the classes fit in `kClassSizesMax`, and each class keeps
    aligned the sizes up to the page. -/
structure GoodMaxSizes (pageShift : ℕ) (ms : List ℕ) : Prop where
  fill : FillFrom 0 ms
  pos : ∀ m ∈ ms, 0 < m
  last : kMaxSize ∈ ms
  fits : ms.length < kClassSizesMax
  aligned : alignedFrom pageShift 0 ms = true

instance (pageShift : ℕ) (ms : List ℕ) : Decidable (GoodMaxSizes pageShift ms) :=
  decidable_of_iff
    (FillFrom 0 ms ∧ (∀ m ∈ ms, 0 < m) ∧ kMaxSize ∈ ms ∧ ms.length < kClassSizesMax ∧
      alignedFrom pageShift 0 ms = true)
    ⟨fun ⟨h1, h2, h3, h4, h5⟩ => ⟨h1, h2, h3, h4, h5⟩,
      fun ⟨h1, h2, h3, h4, h5⟩ => ⟨h1, h2, h3, h4, h5⟩⟩

/-- Each class, after the class before it, keeps aligned the sizes up to the
    page. -/
theorem alignedFrom_getD {pageShift : ℕ} :
    ∀ {p : ℕ} {ms : List ℕ} {k : ℕ}, alignedFrom pageShift p ms = true → k < ms.length →
      classAligned pageShift ((p :: ms).getD k 0) (ms.getD k 0) = true
  | _, [], _, _, hk => absurd hk (Nat.not_lt_zero _)
  | p, m :: ms, k, h, hk => by
    simp only [alignedFrom, Bool.and_eq_true] at h
    cases k with
    | zero => exact h.1
    | succ k =>
      rw [List.getD_cons_succ, List.getD_cons_succ]
      exact alignedFrom_getD h.2 (by simpa using hk)

/-- The tables as `Init` fills them from its classes: one size class more
    than classes made (class 0), and `class_array_` filled from the largest
    sizes of the classes. -/
structure Filled (m : SizeMap) : Prop where
  num : m.numSizeClasses = m.classes.length + 1
  array : m.classArray = fillClassArray (m.classes.map Prod.fst) 1 0 fun _ => 0

theorem classToSize_succ (m : SizeMap) (c : ℕ) :
    m.classToSize (c + 1) = (m.classes.map Prod.fst).getD c 0 := by
  rw [classToSize, if_neg (Nat.succ_ne_zero c), Nat.add_sub_cancel,
    show (0 : ℕ) = Prod.fst ((0, 0) : ℕ × ℕ) from rfl, List.getD_map]

/-- No class of a good table is larger than `kMaxSize`. -/
theorem classToSize_le_kMaxSize {m : SizeMap} {pageShift : ℕ}
    (hg : GoodMaxSizes pageShift (m.classes.map Prod.fst)) (c : ℕ) :
    m.classToSize c ≤ kMaxSize := by
  cases c with
  | zero => simp [classToSize]
  | succ c =>
    rw [classToSize_succ]
    by_cases hc : c < (m.classes.map Prod.fst).length
    · rw [List.getD_eq_getElem _ _ hc]
      exact (hg.fill.bounds _ (List.getElem_mem hc)).2.1
    · rw [List.getD_eq_default _ _ (Nat.le_of_not_lt hc)]
      exact Nat.zero_le _

section Filled

variable {m : SizeMap} {pageShift t : ℕ} (hf : m.Filled)
  (hg : GoodMaxSizes pageShift (m.classes.map Prod.fst))
include hf hg

/-- `SizeClass(t)` is one more than the number of classes too small for
    `t`. -/
theorem sizeClass_eq (ht : t ≤ kMaxSize) :
    m.sizeClass t = (m.classes.map Prod.fst).countP (fun x => decide (x < t)) + 1 := by
  rw [sizeClass, hf.array, fillClassArray_classIndex hg.fill 1 _ t
    (classIndex_mono (Nat.zero_le t)) ⟨kMaxSize, hg.last, ht⟩, Nat.add_comm]

/-- `SizeClass(t)` is a class of the table. -/
theorem sizeClass_lt (ht : t ≤ kMaxSize) : m.sizeClass t < m.numSizeClasses := by
  have := List.countP_lt_lt_length hg.fill.increasing ⟨kMaxSize, hg.last, ht⟩
  rw [sizeClass_eq hf hg ht, hf.num, ← List.length_map Prod.fst]
  omega

/-- The class `SizeClass(t)` holds `t`. -/
theorem le_classToSize_sizeClass (ht : t ≤ kMaxSize) : t ≤ m.classToSize (m.sizeClass t) := by
  rw [sizeClass_eq hf hg ht, classToSize_succ]
  exact List.le_getD_countP 0 hg.fill.increasing ⟨kMaxSize, hg.last, ht⟩

/-- The classes before `SizeClass(t)` are too small for `t`. -/
theorem classToSize_lt_of_lt_sizeClass (ht : t ≤ kMaxSize) {c : ℕ} (hc : 1 ≤ c)
    (hct : c < m.sizeClass t) : m.classToSize c < t := by
  obtain ⟨c, rfl⟩ := Nat.exists_eq_add_of_le' hc
  rw [classToSize_succ]
  rw [sizeClass_eq hf hg ht] at hct
  exact List.getD_lt_of_lt_countP 0 hg.fill.increasing (by omega)

/-- Every class of the table has a size. -/
theorem classToSize_pos {c : ℕ} (hc : 1 ≤ c) (hc' : c < m.numSizeClasses) :
    0 < m.classToSize c := by
  obtain ⟨c, rfl⟩ := Nat.exists_eq_add_of_le' hc
  have hlen : c < (m.classes.map Prod.fst).length := by
    rw [List.length_map]
    rw [hf.num] at hc'
    omega
  rw [classToSize_succ, List.getD_eq_getElem _ _ hlen]
  exact hg.pos _ (List.getElem_mem hlen)

/-- The loop that checks every size class passes. -/
theorem checkSizes_ok : ∀ fuel size, m.checkSizes fuel size = .ok ()
  | 0, _ => rfl
  | fuel + 1, size => by
    rw [checkSizes]
    by_cases hmax : kMaxSize < size
    · rw [if_pos hmax]
    · have ht := not_lt.1 hmax
      have hlt := sizeClass_lt hf hg ht
      have hpos : 0 < m.sizeClass size := by rw [sizeClass_eq hf hg ht]; omega
      -- the three checks of a class: it exists, the class before is too
      -- small, and it is large enough
      have hbelow : ¬ (1 < m.sizeClass size ∧ size ≤ m.classToSize (m.sizeClass size - 1)) :=
        fun h => absurd h.2 (not_le.2 (classToSize_lt_of_lt_sizeClass hf hg ht (by omega) (by omega)))
      have habove := le_classToSize_sizeClass hf hg ht
      have hsize := classToSize_pos hf hg hpos hlt
      rw [if_neg hmax]
      dsimp only
      rw [if_neg (by omega), if_neg hbelow, if_neg (by omega)]
      exact checkSizes_ok fuel _

/-- A class holding a positive multiple of `2 ^ j`, `j ≤ pageShift`, has a
    size that is a multiple of `2 ^ j`. -/
theorem dvd_classToSize_sizeClass {j x : ℕ} (hj : j ≤ pageShift) (hx0 : 0 < x)
    (hx : x ≤ kMaxSize) (hd : 2 ^ j ∣ x) : 2 ^ j ∣ m.classToSize (m.sizeClass x) := by
  have hreach : ∃ y ∈ m.classes.map Prod.fst, x ≤ y := ⟨kMaxSize, hg.last, hx⟩
  have hlen := List.countP_lt_lt_length hg.fill.increasing hreach
  -- the class of `x` lies between the class before it and its own size
  have hprev := List.getD_cons_countP_lt 0 hx0 hg.fill.increasing
  have hle := List.le_getD_countP 0 hg.fill.increasing hreach
  rw [sizeClass_eq hf hg hx, classToSize_succ]
  exact dvd_of_classAligned (alignedFrom_getD hg.aligned hlen) hj hprev hle hd

/-- The inner loop of the alignment check passes for an alignment up to the
    page. -/
theorem checkAlignedSizes_ok {j : ℕ} (hj : j ≤ pageShift) (hps : 2 ^ pageShift ≤ kMaxSize) :
    ∀ fuel size, 0 < size → 2 ^ j ∣ size →
      m.checkAlignedSizes (2 ^ pageShift) (2 ^ j) fuel size = .ok ()
  | 0, _, _, _ => rfl
  | fuel + 1, size, hpos, hd => by
    rw [checkAlignedSizes]
    by_cases hpage : 2 ^ pageShift ≤ size
    · rw [if_pos hpage]
    · have hdvd := dvd_classToSize_sizeClass hf hg hj hpos (by omega) hd
      rw [if_neg hpage, if_neg (by rw [Nat.mod_eq_zero_of_dvd hdvd]; exact not_not.2 rfl)]
      exact checkAlignedSizes_ok hj hps fuel _ (by omega) (Nat.dvd_add hd dvd_rfl)

/-- The alignment check passes, over the alignments from any power of two
    on. -/
theorem checkAlignments_ok (hps : 2 ^ pageShift ≤ kMaxSize) :
    ∀ fuel j, m.checkAlignments (2 ^ pageShift) fuel (2 ^ j) = .ok ()
  | 0, _ => rfl
  | fuel + 1, j => by
    rw [checkAlignments]
    by_cases hpage : 2 ^ pageShift < 2 ^ j
    · rw [if_pos hpage]
    · have hj : j ≤ pageShift := (Nat.pow_le_pow_iff_right (by decide)).1 (not_lt.1 hpage)
      rw [if_neg hpage, checkAlignedSizes_ok hf hg hj hps _ _ (Nat.two_pow_pos j) dvd_rfl]
      dsimp only
      rw [Nat.shiftLeft_eq, ← Nat.pow_add]
      exact checkAlignments_ok hps fuel _

/-- The classes rise in size. -/
theorem classToSize_lt_classToSize {c c' : ℕ} (hc : 1 ≤ c) (hcc' : c < c')
    (hc' : c' < m.numSizeClasses) : m.classToSize c < m.classToSize c' := by
  obtain ⟨c, rfl⟩ := Nat.exists_eq_add_of_le' hc
  obtain ⟨c', rfl⟩ := Nat.exists_eq_add_of_le' (hc.trans hcc'.le)
  have hlen : c' < (m.classes.map Prod.fst).length := by
    rw [List.length_map]
    rw [hf.num] at hc'
    omega
  rw [classToSize_succ, classToSize_succ, List.getD_eq_getElem _ _ (by omega),
    List.getD_eq_getElem _ _ hlen]
  exact List.pairwise_iff_getElem.1 hg.fill.increasing c c' (by omega) hlen (by omega)

end Filled

/-- `Init` succeeds when its loop makes a good table: the tables are then the
    classes of the loop, with `class_array_` filled from them. -/
theorem init_eq_ok {b : Build} {flags nativePageSize : ℕ} {classes : List (ℕ × ℕ)}
    (hloop : classLoop b (minSpanSize b nativePageSize) flags (kMaxSize / kAlignment + 1)
      kAlignment [] = .ok classes)
    (hg : GoodMaxSizes b.pageShift (classes.reverse.map Prod.fst)) :
    ∃ m : SizeMap, init b flags nativePageSize = .ok m ∧ m.classes = classes.reverse ∧ m.Filled := by
  have hfits : ¬ kClassSizesMax < classes.length + 1 := by
    have := hg.fits
    rw [List.length_map, List.length_reverse] at this
    omega
  let m : SizeMap := {
    numSizeClasses := classes.length + 1
    classes := classes.reverse
    classArray := fillClassArray (classes.reverse.map Prod.fst) 1 0 fun _ => 0
    minSpanSizeInPages := minSpanSize b nativePageSize / b.kPageSize }
  have hf : m.Filled := ⟨by simp [m], rfl⟩
  have hsizes : m.checkSizes (kMaxSize / kAlignment + 1) 0 = .ok () := checkSizes_ok hf hg _ _
  have haligns : m.checkAlignments b.kPageSize (b.pageShift + 1) b.minAlign = .ok () := by
    have hps : 2 ^ b.pageShift ≤ kMaxSize := b.kPageSize_eq ▸ b.kPageSize_le_kMaxSize
    -- `kMinAlign` is a power of two
    obtain ⟨j, hj⟩ : ∃ j, b.minAlign = 2 ^ j := by
      rcases b.minAlign_eq with h | h
      · exact ⟨3, h⟩
      · exact ⟨4, h⟩
    rw [b.kPageSize_eq, hj]
    exact checkAlignments_ok hf hg hps _ _
  refine ⟨m, ?_, rfl, hf⟩
  simp only [init, hloop]
  rw [if_neg (by decide), if_neg (by decide), if_neg hfits]
  simp only [m] at hsizes haligns
  simp only [hsizes, haligns]
  rfl

/-- `Init` crashes when its loop makes more classes than fit. -/
theorem init_eq_error_of_length {b : Build} {flags nativePageSize : ℕ} {classes : List (ℕ × ℕ)}
    (hloop : classLoop b (minSpanSize b nativePageSize) flags (kMaxSize / kAlignment + 1)
      kAlignment [] = .ok classes)
    (hlen : kClassSizesMax < classes.length + 1) :
    init b flags nativePageSize = .error "too many size classes: (found vs. max)" := by
  simp only [init, hloop]
  rw [if_neg (by decide), if_neg (by decide), if_pos hlen]

end Gperftools.SizeMap
