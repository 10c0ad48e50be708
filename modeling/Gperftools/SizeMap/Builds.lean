import Gperftools.SizeMap.Tables

/-!
# The size classes of every build

`Init` runs with a build (its page shift, from 12 to 18, and `kMinAlign`, 8
or 16), a native page of `2 ^ k` bytes, and any transfer size. Its smallest
span is `2 ^ e` bytes, `e = max k pageShift` (`minSpanSize_two_pow`). The
tables of each build are checked by computation for every `e` up to 23 (one
theorem for 4 KiB pages, `builds_12`, and one for the others, `builds_wide`), and beyond it the sizes
of the loop are the classes (`classMaxes_of_wide`). So:

* `init_good`: in a good configuration (`GoodConfig`: pages of 8 KiB or
  more, or of 4 KiB with native pages up to 4 MiB, or 8 MiB with
  `kMinAlign` 16), `Init` succeeds, with classes rising in size, one more
  than fits in `kClassSizesMax` at most, and `SizeClass(s)` the first class
  holding `s` (`init_size_classes`);
* otherwise `Init` crashes with too many size classes (`init_error_of_bad`):
  at 4 KiB pages with native pages of 8 MiB and `kMinAlign` 8 the loop makes
  130 classes (`tooManyAt_12`; at the default transfer size,
  `init_too_many_classes`), and from 16 MiB every size is a class.
-/

namespace Gperftools.SizeMap

/-- A property of the sizes of the loop of a build, `false` when the loop
    crashes. -/
def onSizes (b : Build) (p : List ℕ → Bool) : Bool :=
  match sizeLoop b (kMaxSize / kAlignment + 1) kAlignment with
  | .ok sizes => p sizes
  | .error _ => false

theorem onSizes_sound {b : Build} {p : List ℕ → Bool} (h : onSizes b p = true) :
    ∃ sizes, sizeLoop b (kMaxSize / kAlignment + 1) kAlignment = .ok sizes ∧ p sizes = true := by
  unfold onSizes at h
  split at h
  · exact ⟨_, ‹_›, h⟩
  · cases h

/-- The sizes of a build make good tables for every smallest span from the
    page to `2 ^ top`. -/
def tablesUpTo (b : Build) (top : ℕ) : Bool :=
  onSizes b fun sizes => decide (GoodSizes b.pageShift sizes) &&
    (List.range' b.pageShift (top + 1 - b.pageShift)).all fun e =>
      tablesGood b.pageShift (2 ^ e) sizes

/-- From a smallest span of 16 MiB, the sizes of a build are its classes, and
    they fit. -/
def wideGood (b : Build) : Bool :=
  onSizes b fun sizes => decide (GoodSizes b.pageShift sizes) && wideGaps sizes &&
    decide (sizes.length < kClassSizesMax)

/-- From a smallest span of 16 MiB, the sizes of a build are its classes, and
    they do not fit. -/
def wideTooMany (b : Build) : Bool :=
  onSizes b fun sizes => decide (∀ s ∈ sizes, 0 < s ∧ s ≤ kMaxSize) && wideGaps sizes &&
    decide (kClassSizesMax ≤ sizes.length)

/-- With a smallest span of `2 ^ e` bytes from 16 KiB, a build makes too many
    classes. -/
def tooManyAt (b : Build) (e : ℕ) : Bool :=
  onSizes b fun sizes => decide (14 ≤ e) &&
    decide (kClassSizesMax ≤ (classMaxes b.pageShift (spanBytes (2 ^ e) 0) sizes).length)

/-- The largest smallest span, `2 ^ goodTop b`, that the computation checks:
    8 MiB, or 4 MiB with 4 KiB pages and `kMinAlign` 8. -/
def goodTop (b : Build) : ℕ := if b.pageShift = 12 ∧ b.minAlign = 8 then 22 else 23

/-! ## The kernel computation: one theorem per page shift -/

set_option maxRecDepth 100000 in
/-- Pages of 4 KiB. -/
theorem builds_12 (ma : ℕ) (h : ma = 8 ∨ ma = 16) :
    tablesUpTo ⟨12, by decide, by decide, ma, h⟩ (if ma = 8 then 22 else 23) = true ∧
      wideTooMany ⟨12, by decide, by decide, ma, h⟩ = true := by
  rcases h with rfl | rfl <;> decide +kernel

set_option maxRecDepth 100000 in
/-- Pages of 4 KiB and `kMinAlign` 8, with a smallest span of 8 MiB. -/
theorem tooManyAt_12 : tooManyAt Build.pages4kAlign8 23 = true := by
  decide +kernel

set_option maxRecDepth 100000 in
/-- Pages of 8 KiB to 256 KiB, one page shift after the other in one proof. -/
theorem builds_wide (ps : ℕ) (h1 : 13 ≤ ps) (h2 : ps ≤ 18) (ma : ℕ) (h : ma = 8 ∨ ma = 16) :
    tablesUpTo ⟨ps, by omega, h2, ma, h⟩ 23 = true ∧
      wideGood ⟨ps, by omega, h2, ma, h⟩ = true := by
  have hps : ps = 13 ∨ ps = 14 ∨ ps = 15 ∨ ps = 16 ∨ ps = 17 ∨ ps = 18 := by omega
  rcases hps with rfl | rfl | rfl | rfl | rfl | rfl <;> rcases h with rfl | rfl <;>
    decide +kernel +revert

/-! ## Every build -/

theorem tablesUpTo_sound {b : Build} {top : ℕ} (h : tablesUpTo b top = true) :
    ∃ sizes, sizeLoop b (kMaxSize / kAlignment + 1) kAlignment = .ok sizes ∧
      GoodSizes b.pageShift sizes ∧
      ∀ e, b.pageShift ≤ e → e ≤ top → tablesGood b.pageShift (2 ^ e) sizes = true := by
  obtain ⟨sizes, hsizes, h⟩ := onSizes_sound h
  simp only [Bool.and_eq_true, decide_eq_true_eq, List.all_eq_true, List.mem_range'_1] at h
  exact ⟨sizes, hsizes, h.1, fun e h1 h2 => h.2 e ⟨h1, by omega⟩⟩

/-- The checks of every build: good tables up to `2 ^ goodTop b`, and from
    16 MiB the sizes as classes, fitting from pages of 8 KiB on, and not at
    4 KiB. -/
theorem builds_checked (b : Build) :
    tablesUpTo b (goodTop b) = true ∧ (13 ≤ b.pageShift → wideGood b = true) ∧
      (b.pageShift = 12 → wideTooMany b = true) := by
  obtain ⟨ps, h1, h2, ma, h3⟩ := b
  rcases Nat.lt_or_ge ps 13 with hlt | hge
  · -- pages of 4 KiB
    obtain rfl : ps = 12 := by omega
    obtain ⟨ht, hw⟩ := builds_12 ma h3
    refine ⟨?_, by intro h; simp at h, fun _ => hw⟩
    rcases h3 with rfl | rfl
    · exact ht
    · exact ht
  · -- from 8 KiB pages on, the tables are checked up to 8 MiB
    obtain ⟨ht, hw⟩ := builds_wide ps hge h2 ma h3
    have htop : goodTop ⟨ps, h1, h2, ma, h3⟩ = 23 := if_neg fun h => by simp only at h; omega
    refine ⟨htop ▸ ht, fun _ => hw, fun h => ?_⟩
    simp only at h
    omega

/-- A native page of `2 ^ k` bytes gives a smallest span of `2 ^ max k
    kPageShift` bytes. -/
theorem minSpanSize_two_pow (b : Build) (k : ℕ) :
    minSpanSize b (2 ^ k) = 2 ^ max k b.pageShift := by
  have hmax : max (2 ^ k) (2 ^ b.pageShift) = 2 ^ max k b.pageShift := by
    rcases le_total k b.pageShift with h | h
    · rw [max_eq_right (Nat.pow_le_pow_right (by decide) h), max_eq_right h]
    · rw [max_eq_left (Nat.pow_le_pow_right (by decide) h), max_eq_left h]
  have hdvd : 2 ^ max k b.pageShift % 2 ^ b.pageShift = 0 :=
    Nat.mod_eq_zero_of_dvd (Nat.pow_dvd_pow 2 (le_max_right k b.pageShift))
  simp only [minSpanSize, b.kPageSize_eq, hmax, hdvd]
  simp

/-- The sizes of the loop, when they fit, are a good table of their own. -/
theorem GoodSizes.goodMaxSizes {pageShift : ℕ} {sizes : List ℕ} (hs : GoodSizes pageShift sizes)
    (hlen : sizes.length < kClassSizesMax) : GoodMaxSizes pageShift sizes :=
  ⟨hs.fill, hs.pos, List.mem_of_getLast? hs.last, hlen, hs.aligned⟩

/-- `Init` succeeds when the classes of its sizes are a good table at every
    transfer size. -/
theorem init_ok_of_goodMaxSizes {b : Build} {sizes : List ℕ} {nativePageSize : ℕ}
    (hsizes : sizeLoop b (kMaxSize / kAlignment + 1) kAlignment = .ok sizes)
    (hgood : ∀ flags, GoodMaxSizes b.pageShift
      (classMaxes b.pageShift (spanBytes (minSpanSize b nativePageSize) flags) sizes))
    (flags : ℕ) :
    ∃ m : SizeMap, init b flags nativePageSize = .ok m ∧ m.Filled ∧
      GoodMaxSizes b.pageShift (m.classes.map Prod.fst) := by
  have hloop : classLoop b (minSpanSize b nativePageSize) flags (kMaxSize / kAlignment + 1)
      kAlignment [] = .ok (groupClasses b.pageShift (spanBytes (minSpanSize b nativePageSize) flags)
        sizes []) := by
    rw [classLoop_eq_map, hsizes]
    rfl
  have hg := hgood flags
  rw [← groupClasses_reverse_map_fst] at hg
  obtain ⟨m, hinit, hcl, hf⟩ := init_eq_ok hloop hg
  exact ⟨m, hinit, hf, hcl ▸ hg⟩

/-- The configurations whose size classes fit: pages of 8 KiB or more, or of
    4 KiB with a native page up to 4 MiB, or up to 8 MiB with `kMinAlign`
    16. -/
def GoodConfig (b : Build) (k : ℕ) : Prop :=
  13 ≤ b.pageShift ∨ k ≤ 22 ∨ (b.minAlign = 16 ∧ k ≤ 23)

/-- In a good configuration, `Init` succeeds and its tables are good, at every
    transfer size. -/
theorem init_good (b : Build) (flags k : ℕ) (hk : GoodConfig b k) :
    ∃ m : SizeMap, init b flags (2 ^ k) = .ok m ∧ m.Filled ∧
      GoodMaxSizes b.pageShift (m.classes.map Prod.fst) := by
  obtain ⟨htab, hwide, -⟩ := builds_checked b
  obtain ⟨sizes, hsizes, hs, htables⟩ := tablesUpTo_sound htab
  refine init_ok_of_goodMaxSizes hsizes (fun flags => ?_) flags
  rw [minSpanSize_two_pow]
  by_cases htop : max k b.pageShift ≤ goodTop b
  · exact goodMaxSizes_of_tablesGood hs (htables _ (le_max_right _ _) htop) flags
  · -- beyond the checked spans: pages of 8 KiB or more, and a span of 16 MiB
    have hge : 13 ≤ b.pageShift ∧ 24 ≤ max k b.pageShift := by
      unfold goodTop at htop
      unfold GoodConfig at hk
      split_ifs at htop <;> omega
    obtain ⟨sizes', hsizes', hw⟩ := onSizes_sound (hwide hge.1)
    obtain rfl : sizes' = sizes := by
      rw [hsizes] at hsizes'
      exact (Except.ok.inj hsizes').symm
    simp only [Bool.and_eq_true, decide_eq_true_eq] at hw
    obtain ⟨⟨hs', hgaps⟩, hlen⟩ := hw
    have hpos : ∀ s ∈ sizes', 0 < s ∧ s ≤ kMaxSize :=
      fun s hs'' => ⟨hs.pos s hs'', (hs.fill.bounds s hs'').2.1⟩
    rw [classMaxes_of_wide (le_max_right _ _) hge.2 hpos hgaps]
    exact hs.goodMaxSizes hlen

/-- For every build and transfer size, and a native page of `2 ^ k` bytes in a
    good configuration, `Init` completes, with `1 < num_size_classes ≤
    kClassSizesMax`, `class_to_size` rising over the classes, and
    `SizeClass(s)` the first class holding `s`, for every `s` up to
    `kMaxSize`. -/
theorem init_size_classes (b : Build) (flags k : ℕ) (hk : GoodConfig b k) :
    ∃ m : SizeMap, init b flags (2 ^ k) = .ok m ∧
      1 < m.numSizeClasses ∧ m.numSizeClasses ≤ kClassSizesMax ∧
      (∀ c c', 1 ≤ c → c < c' → c' < m.numSizeClasses → m.classToSize c < m.classToSize c') ∧
      ∀ s ≤ kMaxSize, 1 ≤ m.sizeClass s ∧ m.sizeClass s < m.numSizeClasses ∧
        s ≤ m.classToSize (m.sizeClass s) ∧
        ∀ c, 1 ≤ c → c < m.sizeClass s → m.classToSize c < s := by
  obtain ⟨m, hinit, hf, hg⟩ := init_good b flags k hk
  have hne : 0 < (m.classes.map Prod.fst).length := List.length_pos_of_mem hg.last
  have hfits := hg.fits
  rw [List.length_map] at hne hfits
  refine ⟨m, hinit, by rw [hf.num]; omega, by rw [hf.num]; exact hfits, ?_, fun s hs => ?_⟩
  · exact fun c c' hc hcc' hc' => classToSize_lt_classToSize hf hg hc hcc' hc'
  · refine ⟨?_, sizeClass_lt hf hg hs, le_classToSize_sizeClass hf hg hs,
      fun c hc hcs => classToSize_lt_of_lt_sizeClass hf hg hs hc hcs⟩
    rw [sizeClass_eq hf hg hs]
    omega

/-- `Init` crashes when its loop makes more classes than fit. -/
theorem init_error_of_classMaxes {b : Build} {sizes : List ℕ} {nativePageSize flags : ℕ}
    (hsizes : sizeLoop b (kMaxSize / kAlignment + 1) kAlignment = .ok sizes)
    (hlen : kClassSizesMax ≤
      (classMaxes b.pageShift (spanBytes (minSpanSize b nativePageSize) flags) sizes).length) :
    init b flags nativePageSize = .error "too many size classes: (found vs. max)" := by
  have hloop : classLoop b (minSpanSize b nativePageSize) flags (kMaxSize / kAlignment + 1)
      kAlignment [] = .ok (groupClasses b.pageShift (spanBytes (minSpanSize b nativePageSize) flags)
        sizes []) := by
    rw [classLoop_eq_map, hsizes]
    rfl
  refine init_eq_error_of_length hloop ?_
  rw [← groupClasses_reverse_map_fst, List.length_map, List.length_reverse] at hlen
  omega

/-- Outside the good configurations, `Init` crashes: with 4 KiB pages, native
    pages of 8 MiB and `kMinAlign` 8, or of 16 MiB or more. -/
theorem init_error_of_bad (b : Build) (flags k : ℕ) (hk : ¬ GoodConfig b k) :
    init b flags (2 ^ k) = .error "too many size classes: (found vs. max)" := by
  unfold GoodConfig at hk
  have hps : b.pageShift = 12 := by have := b.pageShift_ge; omega
  obtain ⟨-, -, hwide⟩ := builds_checked b
  by_cases hk24 : 24 ≤ k
  · -- every size is a class, and there are too many
    obtain ⟨sizes, hsizes, hw⟩ := onSizes_sound (hwide hps)
    simp only [Bool.and_eq_true, decide_eq_true_eq] at hw
    obtain ⟨⟨hpos, hgaps⟩, hlen⟩ := hw
    refine init_error_of_classMaxes hsizes ?_
    rw [minSpanSize_two_pow, classMaxes_of_wide (le_max_right _ _) (by omega) hpos hgaps]
    exact hlen
  · -- native pages of 8 MiB with `kMinAlign` 8: the loop makes 130 classes,
    -- whatever the transfer size, since a span of 8 MiB holds enough objects
    have hk23 : k = 23 := by omega
    have hma : b.minAlign = 8 := by rcases b.minAlign_eq with h | h <;> omega
    obtain rfl : b = Build.pages4kAlign8 := by
      obtain ⟨ps, h1, h2, ma, h3⟩ := b
      simp only at hps hma
      subst hps hma
      rfl
    subst hk23
    obtain ⟨sizes, hsizes, h⟩ := onSizes_sound tooManyAt_12
    simp only [Bool.and_eq_true, decide_eq_true_eq] at h
    refine init_error_of_classMaxes hsizes ?_
    rw [minSpanSize_two_pow, spanBytes_eq_zero (by decide) flags]
    exact h.2

/-- With 4 KiB pages, `kMinAlign` 8, native pages of 8 MiB and the default
    transfer size, `Init` crashes with too many size classes. -/
theorem init_too_many_classes :
    init Build.pages4kAlign8 32 (2 ^ 23) = .error "too many size classes: (found vs. max)" :=
  init_error_of_bad Build.pages4kAlign8 32 23 (by simp [GoodConfig, Build.pages4kAlign8])

/-- The default build with 4 KiB native pages and the default transfer
    size. -/
theorem init_size_classes_default :
    GoodConfig Build.default 12 ∧
      ∃ m : SizeMap, init Build.default 32 (2 ^ 12) = .ok m ∧
        1 < m.numSizeClasses ∧ m.numSizeClasses ≤ kClassSizesMax ∧
        (∀ c c', 1 ≤ c → c < c' → c' < m.numSizeClasses → m.classToSize c < m.classToSize c') ∧
        ∀ s ≤ kMaxSize, 1 ≤ m.sizeClass s ∧ m.sizeClass s < m.numSizeClasses ∧
          s ≤ m.classToSize (m.sizeClass s) ∧
          ∀ c, 1 ≤ c → c < m.sizeClass s → m.classToSize c < s :=
  ⟨Or.inl (by decide), init_size_classes Build.default 32 12 (Or.inl (by decide))⟩

end Gperftools.SizeMap
