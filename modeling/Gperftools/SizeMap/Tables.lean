import Gperftools.SizeMap.ClassArray

/-!
# The tables of every configuration

Whether `Init` succeeds, and with which classes, depends on the build (its
page shift and `kMinAlign`), on the smallest span `mss` and on the transfer
size `flags`. The sizes of the loop depend on the build only, and the classes
are made of them by merges each of which depends on two sizes' spans only
(`classMaxes`). So the tables are checked one window of sizes at a time:

* the span of a size changes with `flags` only at its thresholds, so a
  property of the spans of a few sizes that holds at their thresholds holds
  at every transfer size (`forall_flags_of_windowPoints`);
* the pairs of sizes that merge at every transfer size bound the number of
  classes (`length_classMaxes_le`), and the windows of three sizes around each
  merge that lowers the alignment keep the classes aligned
  (`locAligned_of_locChecked`);
* with the sizes of the loop a good table on their own (`GoodSizes`), this
  makes the classes a good table at every transfer size
  (`goodMaxSizes_classMaxes`), and `Init` then succeeds
  (`init_ok_of_tablesChecked`).

Once `mss` is 16 MiB no two sizes merge (`classMaxes_of_wide`), so only the
smallest spans up to 8 MiB are checked by computation, a build at a time
(`buildChecked`).
-/

namespace Gperftools.SizeMap

section Windows

variable {pageShift mss : ℕ}

/-- The transfer sizes at which the spans of the sizes `W` may change, and
    `0`. -/
def windowPoints (mss : ℕ) (W : List ℕ) : List ℕ := 0 :: W.flatMap (spanThresholds mss)

/-- A property of the spans of the sizes `W` that holds at their thresholds
    holds at every transfer size. -/
theorem forall_flags_of_windowPoints (W : List ℕ) (P : (ℕ → ℕ) → Prop) (hW : ∀ s ∈ W, 0 < s)
    (hP : ∀ f g : ℕ → ℕ, (∀ s ∈ W, f s = g s) → P f → P g)
    (h : ∀ F ∈ windowPoints mss W, P (spanBytes mss F)) (flags : ℕ) :
    P (spanBytes mss flags) := by
  obtain ⟨F, hF, hle, hno⟩ := List.exists_floor_mem flags (W.flatMap (spanThresholds mss))
  refine hP _ _ (fun s hs => ?_) (h F hF)
  exact (spanBytes_eq_of_thresholds (hW s hs) hle
    fun t ht => hno t (List.mem_flatMap.2 ⟨s, hs, ht⟩)).symm

theorem mergeBit_congr {f g : ℕ → ℕ} {s t : ℕ} (hs : f s = g s) (ht : f t = g t) :
    mergeBit pageShift f s t = mergeBit pageShift g s t := by
  simp only [mergeBit, hs, ht]

theorem locStep_congr {f g : ℕ → ℕ} {s t : ℕ} {next : Option ℕ} (hs : f s = g s) (ht : f t = g t)
    (hu : ∀ u ∈ next, f u = g u) : locStep pageShift f s t next = locStep pageShift g s t next := by
  cases next with
  | none => simp only [locStep, mergeBit_congr hs ht]
  | some u => simp only [locStep, mergeBit_congr hs ht, mergeBit_congr ht (hu u rfl)]

/-- The sizes `s` and `t` merge at every transfer size, checked at their
    thresholds. -/
def alwaysMerges (pageShift mss s t : ℕ) : Bool :=
  (windowPoints mss [s, t]).all fun F => mergeBit pageShift (spanBytes mss F) s t

theorem mergeBit_of_alwaysMerges {s t : ℕ} (hs : 0 < s) (ht : 0 < t)
    (h : alwaysMerges pageShift mss s t = true) (flags : ℕ) :
    mergeBit pageShift (spanBytes mss flags) s t = true := by
  refine forall_flags_of_windowPoints [s, t] (fun f => mergeBit pageShift f s t = true) ?_ ?_ ?_ flags
  · simp [hs, ht]
  · intro f g hfg hf
    rw [← hf, mergeBit_congr (hfg s (by simp)) (hfg t (by simp))]
  · simpa [alwaysMerges] using h

/-- The pairs of consecutive sizes that merge at every transfer size. -/
def mergeCount (pageShift mss : ℕ) (sizes : List ℕ) : ℕ :=
  (sizes.zip sizes.tail).countP fun p => alwaysMerges pageShift mss p.1 p.2

/-- Whatever the transfer size, the classes are at most the sizes less the
    merges made at every transfer size. -/
theorem length_classMaxes_le {sizes : List ℕ} (hpos : ∀ s ∈ sizes, 0 < s) (flags : ℕ) :
    (classMaxes pageShift (spanBytes mss flags) sizes).length ≤
      sizes.length - mergeCount pageShift mss sizes := by
  have hadd := length_classMaxes_add pageShift (spanBytes mss flags) sizes
  have hle : mergeCount pageShift mss sizes ≤
      (sizes.zip sizes.tail).countP fun p => mergeBit pageShift (spanBytes mss flags) p.1 p.2 := by
    refine List.countP_mono_left fun p hp h => ?_
    have hmem := List.of_mem_zip hp
    exact mergeBit_of_alwaysMerges (hpos _ hmem.1) (hpos _ (List.mem_of_mem_tail hmem.2)) h flags
  omega

/-- Every merge keeps the classes aligned at every transfer size, checked at
    the thresholds of the three sizes around each merge that could lower the
    alignment. -/
def locChecked (pageShift mss : ℕ) : List ℕ → Bool
  | s :: t :: rest =>
    (ascends pageShift s t ||
      (windowPoints mss (s :: t :: rest.head?.toList)).all fun F =>
        locStep pageShift (spanBytes mss F) s t rest.head?) &&
      locChecked pageShift mss (t :: rest)
  | _ => true

theorem locAligned_of_locChecked :
    ∀ {sizes : List ℕ}, (∀ s ∈ sizes, 0 < s) → locChecked pageShift mss sizes = true →
      ∀ flags, locAligned pageShift (spanBytes mss flags) sizes = true
  | [], _, _, _ => rfl
  | [_], _, _, _ => rfl
  | s :: t :: rest, hpos, h, flags => by
    simp only [locChecked, Bool.and_eq_true, Bool.or_eq_true] at h
    simp only [locAligned, Bool.and_eq_true]
    refine ⟨?_, locAligned_of_locChecked (fun x hx => hpos x (List.mem_cons_of_mem s hx)) h.2 flags⟩
    rcases h.1 with hasc | hwin
    · simp [locStep, hasc]
    · -- the window of `s`, `t` and the size after
      refine forall_flags_of_windowPoints (s :: t :: rest.head?.toList)
        (fun f => locStep pageShift f s t rest.head? = true) ?_ ?_ ?_ flags
      · intro x hx
        simp only [List.mem_cons, Option.mem_toList] at hx
        rcases hx with rfl | rfl | hx
        · exact hpos _ List.mem_cons_self
        · exact hpos _ (List.mem_cons_of_mem s List.mem_cons_self)
        · exact hpos _ (List.mem_cons_of_mem s (List.mem_cons_of_mem t
            (List.mem_of_mem_head? hx)))
      · intro f g hfg hf
        rw [← hf, locStep_congr (hfg s (by simp)) (hfg t (by simp))
          fun u hu => hfg u (by simp [Option.mem_toList.2 hu])]
      · simpa using hwin

end Windows

/-- The sizes of the loop, as a table on their own: a table to fill, of
    positive sizes, ending at `kMaxSize`, each aligned after the one before. -/
structure GoodSizes (pageShift : ℕ) (sizes : List ℕ) : Prop where
  fill : FillFrom 0 sizes
  pos : ∀ s ∈ sizes, 0 < s
  last : sizes.getLast? = some kMaxSize
  aligned : alignedFrom pageShift 0 sizes = true

instance (pageShift : ℕ) (sizes : List ℕ) : Decidable (GoodSizes pageShift sizes) :=
  decidable_of_iff
    (FillFrom 0 sizes ∧ (∀ s ∈ sizes, 0 < s) ∧ sizes.getLast? = some kMaxSize ∧
      alignedFrom pageShift 0 sizes = true)
    ⟨fun ⟨h1, h2, h3, h4⟩ => ⟨h1, h2, h3, h4⟩, fun ⟨h1, h2, h3, h4⟩ => ⟨h1, h2, h3, h4⟩⟩

/-- The classes of the sizes are a good table at every transfer size: few
    enough merges are enough, and every merge keeps them aligned. -/
def tablesChecked (pageShift mss : ℕ) (sizes : List ℕ) : Bool :=
  decide (sizes.length - mergeCount pageShift mss sizes < kClassSizesMax) &&
    locChecked pageShift mss sizes

/-- Good sizes make classes that are a good table whenever their merges keep
    them aligned and few enough. -/
theorem goodMaxSizes_of_locAligned {pageShift : ℕ} {span : ℕ → ℕ} {sizes : List ℕ}
    (hs : GoodSizes pageShift sizes) (hfits : (classMaxes pageShift span sizes).length < kClassSizesMax)
    (hloc : locAligned pageShift span sizes = true) :
    GoodMaxSizes pageShift (classMaxes pageShift span sizes) := by
  have hsub := classMaxes_sublist pageShift span sizes
  refine ⟨hs.fill.sublist hsub, fun m hm => hs.pos m (hsub.subset hm), ?_, hfits, ?_⟩
  · exact List.mem_of_getLast? ((getLast?_classMaxes pageShift span sizes).trans hs.last)
  · cases sizes with
    | nil => exact absurd hs.last (by simp)
    | cons s rest =>
      have ha := hs.aligned
      simp only [alignedFrom, Bool.and_eq_true] at ha
      exact alignedFrom_classMaxes 0 s rest (classAligned_iff.1 ha.1) ha.2 hloc

/-- A checked table is good at every transfer size. -/
theorem goodMaxSizes_classMaxes {pageShift mss : ℕ} {sizes : List ℕ} (hs : GoodSizes pageShift sizes)
    (hc : tablesChecked pageShift mss sizes = true) (flags : ℕ) :
    GoodMaxSizes pageShift (classMaxes pageShift (spanBytes mss flags) sizes) := by
  simp only [tablesChecked, Bool.and_eq_true, decide_eq_true_eq] at hc
  have hlen : (classMaxes pageShift (spanBytes mss flags) sizes).length ≤
      sizes.length - mergeCount pageShift mss sizes := length_classMaxes_le hs.pos flags
  exact goodMaxSizes_of_locAligned hs (by omega) (locAligned_of_locChecked hs.pos hc.2 flags)

/-- From a smallest span of 16 KiB, the classes do not depend on the transfer
    size: they are checked once, with the spans of any transfer size. -/
def tablesFixed (pageShift mss : ℕ) (sizes : List ℕ) : Bool :=
  decide ((classMaxes pageShift (spanBytes mss 0) sizes).length < kClassSizesMax) &&
    locAligned pageShift (spanBytes mss 0) sizes

/-- The spans of a smallest span of 16 KiB are those of any transfer size. -/
theorem spanBytes_eq_zero {mss : ℕ} (hmss : 16384 ≤ mss) (flags : ℕ) :
    spanBytes mss flags = spanBytes mss 0 := by
  funext size
  rw [spanBytes_of_le_mss flags hmss, spanBytes_of_le_mss 0 hmss]

/-- The check of the tables for a smallest span: once for every transfer
    size from 16 KiB, at the thresholds below. -/
def tablesGood (pageShift mss : ℕ) (sizes : List ℕ) : Bool :=
  if 16384 ≤ mss then tablesFixed pageShift mss sizes else tablesChecked pageShift mss sizes

theorem goodMaxSizes_of_tablesGood {pageShift mss : ℕ} {sizes : List ℕ}
    (hs : GoodSizes pageShift sizes) (hc : tablesGood pageShift mss sizes = true) (flags : ℕ) :
    GoodMaxSizes pageShift (classMaxes pageShift (spanBytes mss flags) sizes) := by
  unfold tablesGood at hc
  split_ifs at hc with hmss
  · simp only [tablesFixed, Bool.and_eq_true, decide_eq_true_eq] at hc
    rw [spanBytes_eq_zero hmss flags]
    exact goodMaxSizes_of_locAligned hs hc.1 hc.2
  · exact goodMaxSizes_classMaxes hs hc flags

/-- No size is merged into the class of the size before it. -/
theorem classMaxes_of_forall_not_merge {pageShift : ℕ} {span : ℕ → ℕ} :
    ∀ sizes : List ℕ, (∀ p ∈ sizes.zip sizes.tail, mergeBit pageShift span p.1 p.2 = false) →
      classMaxes pageShift span sizes = sizes
  | [], _ => rfl
  | [_], _ => rfl
  | s :: t :: rest, h => by
    have hst := h (s, t) (by simp)
    rw [classMaxes, if_neg (by simp [hst]), classMaxes_of_forall_not_merge (t :: rest)
      fun p hp => h p (by simp only [List.tail_cons, List.zip_cons_cons]; exact List.mem_cons_of_mem _ hp)]

/-- From a smallest span of 2 MiB, every size up to `kMaxSize` gets one
    smallest span: an eighth of it is more than any size. -/
theorem spanBytes_of_wide {mss size : ℕ} (hmss : 2 ^ 21 ≤ mss) (hs : 0 < size)
    (hsize : size ≤ kMaxSize) (flags : ℕ) : spanBytes mss flags size = mss := by
  rw [spanBytes_of_le_mss flags (le_trans (by decide) hmss)]
  change fitSpan mss size ((kMaxSize - 1) + 1) mss = mss
  have hlt := Nat.mod_lt mss hs
  simp only [kMaxSize] at hsize
  rw [fitSpan, if_neg (by rw [Nat.shiftRight_eq_div_pow]; omega)]

/-- Two sizes far enough apart for `M` hold different numbers of objects in
    `M` bytes. -/
theorem div_lt_div_of_gap {M s t : ℕ} (hs : 0 < s) (hst : s < t) (hgap : s * t ≤ M * (t - s)) :
    M / t < M / s := by
  have ht : 0 < t := hs.trans hst
  have hmul : (M / t + 1) * s * t ≤ M * t :=
    calc (M / t + 1) * s * t = M / t * t * s + s * t := by
          rw [Nat.add_mul, Nat.one_mul, Nat.add_mul, Nat.mul_right_comm]
      _ ≤ M * s + M * (t - s) := Nat.add_le_add (Nat.mul_le_mul_right s (Nat.div_mul_le_self M t)) hgap
      _ = M * t := by rw [← Nat.mul_add, Nat.add_sub_cancel' hst.le]
  exact (Nat.le_div_iff_mul_le hs).2 (Nat.le_of_mul_le_mul_right hmul ht)

/-- Consecutive sizes far apart enough for a smallest span of 16 MiB. -/
def wideGaps (sizes : List ℕ) : Bool :=
  (sizes.zip sizes.tail).all fun p => decide (p.1 < p.2 ∧ p.1 * p.2 ≤ 2 ^ 24 * (p.2 - p.1))

/-- From a smallest span of 16 MiB, sizes with wide gaps never merge: every
    size is a class of its own. -/
theorem classMaxes_of_wide {pageShift e : ℕ} {sizes : List ℕ} (hps : pageShift ≤ e) (he : 24 ≤ e)
    (hpos : ∀ s ∈ sizes, 0 < s ∧ s ≤ kMaxSize) (hgaps : wideGaps sizes = true) (flags : ℕ) :
    classMaxes pageShift (spanBytes (2 ^ e) flags) sizes = sizes := by
  have hwide : 2 ^ 21 ≤ 2 ^ e := Nat.pow_le_pow_right (by decide) (by omega)
  have hpages : (2 ^ e >>> pageShift) <<< pageShift = 2 ^ e := by
    rw [Nat.shiftRight_eq_div_pow, Nat.shiftLeft_eq, Nat.div_mul_cancel (Nat.pow_dvd_pow 2 hps)]
  apply classMaxes_of_forall_not_merge
  intro p hp
  have hmem := List.of_mem_zip hp
  obtain ⟨hs, hsmax⟩ := hpos _ hmem.1
  obtain ⟨ht, htmax⟩ := hpos _ (List.mem_of_mem_tail hmem.2)
  have hgap := of_decide_eq_true (List.all_eq_true.1 hgaps p hp)
  -- the two sizes hold different numbers of objects of the same span
  have hobj : 2 ^ e / p.2 < 2 ^ e / p.1 := div_lt_div_of_gap hs hgap.1
    (hgap.2.trans (Nat.mul_le_mul_right _ (Nat.pow_le_pow_right (by decide) he)))
  simp only [mergeBit, spanBytes_of_wide hwide hs hsmax, spanBytes_of_wide hwide ht htmax, hpages,
    decide_eq_false_iff_not, not_and]
  intro _
  exact hobj.ne

end Gperftools.SizeMap
