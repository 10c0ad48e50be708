import Gperftools.SizeMap.Spans
import Mathlib.Data.Nat.Prime.Basic

/-!
# The classes of a table

The loop of `Init` visits a sequence of sizes that depends only on the
build (`sizeLoop`), and makes classes of them one size at a time
(`addSize`), from the span each size gets (`groupClasses`):
`classLoop_eq_map` splits the loop so.

A table is good (`GoodMaxSizes`) when the largest sizes of its classes rise
in steps the index of `class_array_` can tell apart, end at `kMaxSize`, fit
in `kClassSizesMax`, and keep the sizes that are multiples of an alignment up
to the page aligned (`classAligned`): a class holding a multiple of `2 ^ j`,
`j ≤ kPageShift`, has its largest size a multiple of `2 ^ j`
(`dvd_of_classAligned`).
-/

namespace Gperftools.SizeMap

variable (b : Build)

/-- The sizes the loop of `Init` visits from `size`, each checked as the
    loop checks it. -/
def sizeLoop : ℕ → ℕ → Except String (List ℕ)
  | 0, _ => .ok []
  | fuel + 1, size =>
    if kMaxSize < size then .ok []
    else match alignmentForSize b size with
    | .error e => .error e
    | .ok alignment =>
      if size % alignment ≠ 0 then .error "(size % alignment) == 0"
      else (sizeLoop fuel (size + alignment)).map (size :: ·)

/-- The classes the loop makes of `sizes`, after `classes`, when the size
    `s` gets a span of `span s` bytes. -/
def groupClasses (pageShift : ℕ) (span : ℕ → ℕ) (sizes : List ℕ) (classes : List (ℕ × ℕ)) :
    List (ℕ × ℕ) :=
  sizes.foldl (fun classes size => addSize pageShift size (span size >>> pageShift) classes) classes

@[simp] theorem groupClasses_nil (pageShift : ℕ) (span : ℕ → ℕ) (classes : List (ℕ × ℕ)) :
    groupClasses pageShift span [] classes = classes := rfl

theorem groupClasses_cons (pageShift : ℕ) (span : ℕ → ℕ) (size : ℕ) (sizes : List ℕ)
    (classes : List (ℕ × ℕ)) :
    groupClasses pageShift span (size :: sizes) classes =
      groupClasses pageShift span sizes (addSize pageShift size (span size >>> pageShift) classes) :=
  rfl

/-- The loop of `Init` is the loop over its sizes, grouping them into
    classes. -/
theorem classLoop_eq_map (mss flags : ℕ) : ∀ fuel size classes,
    classLoop b mss flags fuel size classes =
      (sizeLoop b fuel size).map fun sizes =>
        groupClasses b.pageShift (spanBytes mss flags) sizes classes
  | 0, _, _ => rfl
  | fuel + 1, size, classes => by
    rw [classLoop, sizeLoop]
    split_ifs with hmax
    · rfl
    · cases alignmentForSize b size with
      | error e => rfl
      | ok alignment =>
        simp only
        split_ifs with hdvd
        · rfl
        · rw [classLoop_eq_map mss flags fuel]
          cases sizeLoop b fuel (size + alignment) <;> rfl

/-- `Init` puts `size` in the class of `prevSize`, the size before it, when
    their spans have as many pages and hold as many objects. -/
def mergeBit (pageShift : ℕ) (span : ℕ → ℕ) (prevSize size : ℕ) : Bool :=
  decide (span size >>> pageShift = span prevSize >>> pageShift ∧
    ((span size >>> pageShift) <<< pageShift) / size =
      ((span prevSize >>> pageShift) <<< pageShift) / prevSize)

/-- The largest sizes of the classes made of `sizes`: the sizes that the size
    after them does not join. -/
def classMaxes (pageShift : ℕ) (span : ℕ → ℕ) : List ℕ → List ℕ
  | [] => []
  | [s] => [s]
  | s :: t :: rest =>
    if mergeBit pageShift span s t then classMaxes pageShift span (t :: rest)
    else s :: classMaxes pageShift span (t :: rest)

/-- The grouping is local: a class keeps the pages of its last size, so
    whether a size joins it depends only on the size before. -/
theorem groupClasses_map_fst (pageShift : ℕ) (span : ℕ → ℕ) :
    ∀ (rest : List ℕ) (s : ℕ) (cs : List (ℕ × ℕ)),
      (groupClasses pageShift span rest ((s, span s >>> pageShift) :: cs)).reverse.map Prod.fst =
        cs.reverse.map Prod.fst ++ classMaxes pageShift span (s :: rest)
  | [], s, cs => by simp [classMaxes]
  | t :: rest, s, cs => by
    rw [groupClasses_cons, addSize]
    by_cases hm : mergeBit pageShift span s t = true
    · have hc := of_decide_eq_true hm
      rw [if_pos hc, ← hc.1, groupClasses_map_fst pageShift span rest t cs, classMaxes, if_pos hm]
    · have hc : ¬ (span t >>> pageShift = span s >>> pageShift ∧
          ((span t >>> pageShift) <<< pageShift) / t =
            ((span s >>> pageShift) <<< pageShift) / s) := fun hc => hm (decide_eq_true hc)
      rw [if_neg hc, groupClasses_map_fst pageShift span rest t _, classMaxes, if_neg hm]
      simp

/-- The largest sizes of the classes `Init` makes from no classes. -/
theorem groupClasses_reverse_map_fst (pageShift : ℕ) (span : ℕ → ℕ) (sizes : List ℕ) :
    (groupClasses pageShift span sizes []).reverse.map Prod.fst = classMaxes pageShift span sizes := by
  cases sizes with
  | nil => rfl
  | cons s rest =>
    rw [groupClasses_cons]
    exact groupClasses_map_fst pageShift span rest s []

/-- A class for each size, less one for each size that joins the class
    before. -/
theorem length_classMaxes_add (pageShift : ℕ) (span : ℕ → ℕ) :
    ∀ sizes : List ℕ, (classMaxes pageShift span sizes).length +
      (sizes.zip sizes.tail).countP (fun p => mergeBit pageShift span p.1 p.2) = sizes.length
  | [] => rfl
  | [_] => rfl
  | s :: t :: rest => by
    have ih := length_classMaxes_add pageShift span (t :: rest)
    simp only [List.tail_cons, List.zip_cons_cons, List.countP_cons, List.length_cons] at ih ⊢
    rw [classMaxes]
    split_ifs with hm
    · omega
    · rw [List.length_cons]
      omega

/-- The largest sizes of the classes are some of the sizes, in order. -/
theorem classMaxes_sublist (pageShift : ℕ) (span : ℕ → ℕ) :
    ∀ sizes : List ℕ, (classMaxes pageShift span sizes).Sublist sizes
  | [] => List.Sublist.slnil
  | [_] => List.Sublist.refl _
  | s :: t :: rest => by
    have ih := classMaxes_sublist pageShift span (t :: rest)
    rw [classMaxes]
    split_ifs
    · exact ih.cons s
    · exact ih.cons_cons s

/-- The last size is the largest of the last class. -/
theorem getLast?_classMaxes (pageShift : ℕ) (span : ℕ → ℕ) :
    ∀ sizes : List ℕ, (classMaxes pageShift span sizes).getLast? = sizes.getLast?
  | [] => rfl
  | [_] => rfl
  | s :: t :: rest => by
    have ih := getLast?_classMaxes pageShift span (t :: rest)
    rw [classMaxes]
    split_ifs
    · rw [ih, List.getLast?_cons_cons]
    · rw [List.getLast?_cons, ih, List.getLast?_cons_cons, List.getLast?_cons]
      cases rest <;> rfl

/-- The class with largest size `m`, after the class with largest size `p`,
    keeps aligned the sizes up to the page: `g` is the largest power of two
    up to the page that divides `m`, and no multiple of `2 * g` lies
    between `p` and `m`. -/
def classAligned (pageShift p m : ℕ) : Bool :=
  let g := Nat.gcd m (2 ^ pageShift)
  g == 2 ^ pageShift || m / (2 * g) ≤ p / (2 * g)

/-- Every class, after the one of largest size `p`, keeps aligned the sizes
    up to the page. -/
def alignedFrom (pageShift : ℕ) : ℕ → List ℕ → Bool
  | _, [] => true
  | p, m :: ms => classAligned pageShift p m && alignedFrom pageShift m ms

/-- A class that keeps the sizes up to the page aligned has its largest size
    a multiple of every alignment `2 ^ j`, `j ≤ pageShift`, of one of its
    sizes. -/
theorem dvd_of_classAligned {pageShift p m j x : ℕ} (h : classAligned pageShift p m = true)
    (hj : j ≤ pageShift) (hpx : p < x) (hxm : x ≤ m) (hx : 2 ^ j ∣ x) : 2 ^ j ∣ m := by
  obtain ⟨k, hk, hg⟩ := (Nat.dvd_prime_pow Nat.prime_two).1 (Nat.gcd_dvd_right m (2 ^ pageShift))
  have hgm : 2 ^ k ∣ m := hg ▸ Nat.gcd_dvd_left m _
  rcases Nat.lt_or_ge k j with hkj | hjk
  · -- `2 ^ (k + 1)` divides `x` but not `m`: `x` and `m` are in different
    -- blocks of `2 ^ (k + 1)`, and the class check puts `m` in the block of `p`
    exfalso
    have hk' : k < pageShift := by omega
    have hne : 2 ^ k ≠ 2 ^ pageShift := (Nat.pow_right_injective le_rfl).ne hk'.ne
    have h' : m / (2 * 2 ^ k) ≤ p / (2 * 2 ^ k) := by
      simp only [classAligned, Bool.or_eq_true, beq_iff_eq, decide_eq_true_eq] at h
      rw [hg] at h
      exact h.resolve_left hne
    have hdx : 2 * 2 ^ k ∣ x := (pow_succ' 2 k ▸ Nat.pow_dvd_pow 2 hkj).trans hx
    obtain ⟨t, rfl⟩ := hdx
    have hpos : 0 < 2 * 2 ^ k := Nat.mul_pos (by decide) (Nat.two_pow_pos k)
    have h1 : t ≤ m / (2 * 2 ^ k) := (Nat.le_div_iff_mul_le hpos).2 (by rw [Nat.mul_comm]; exact hxm)
    have h2 : p / (2 * 2 ^ k) < t := (Nat.div_lt_iff_lt_mul hpos).2 (by rw [Nat.mul_comm]; exact hpx)
    omega
  · exact (Nat.pow_dvd_pow 2 hjk).trans hgm

/-- The class of largest size `m`, after the class of largest size `p`, keeps
    aligned the sizes up to the page: a multiple of `2 ^ j`, `j ≤ pageShift`,
    among its sizes makes `m` one. -/
def Aligned (pageShift p m : ℕ) : Prop :=
  ∀ j ≤ pageShift, ∀ x, p < x → x ≤ m → 2 ^ j ∣ x → 2 ^ j ∣ m

/-- `classAligned` decides `Aligned`. -/
theorem classAligned_iff {pageShift p m : ℕ} :
    classAligned pageShift p m = true ↔ Aligned pageShift p m := by
  refine ⟨fun h j hj x hpx hxm hx => dvd_of_classAligned h hj hpx hxm hx, fun h => ?_⟩
  obtain ⟨k, hk, hg⟩ := (Nat.dvd_prime_pow Nat.prime_two).1 (Nat.gcd_dvd_right m (2 ^ pageShift))
  simp only [classAligned, Bool.or_eq_true, beq_iff_eq, decide_eq_true_eq]
  rw [hg]
  by_contra hcon
  rw [not_or, not_le] at hcon
  -- `m` is a multiple of `2 ^ k` only, yet the last multiple of `2 ^ (k + 1)`
  -- up to `m` lies above `p`
  have hk' : k < pageShift := lt_of_le_of_ne hk fun h' => hcon.1 (h' ▸ rfl)
  have hpos : 0 < 2 * 2 ^ k := Nat.mul_pos (by decide) (Nat.two_pow_pos k)
  have hxm : m / (2 * 2 ^ k) * (2 * 2 ^ k) ≤ m := Nat.div_mul_le_self m _
  have hpx : p < m / (2 * 2 ^ k) * (2 * 2 ^ k) := by
    have h1 : p < p / (2 * 2 ^ k) * (2 * 2 ^ k) + 2 * 2 ^ k := Nat.lt_div_mul_add hpos
    have h2 := Nat.mul_le_mul_right (2 * 2 ^ k) (Nat.succ_le_of_lt hcon.2)
    rw [Nat.succ_mul] at h2
    omega
  have hdvd : 2 ^ (k + 1) ∣ m / (2 * 2 ^ k) * (2 * 2 ^ k) := pow_succ' 2 k ▸ Dvd.intro_left _ rfl
  have hm := h (k + 1) hk' _ hpx hxm hdvd
  have hk2 : 2 ^ (k + 1) ∣ 2 ^ k := hg ▸ Nat.dvd_gcd hm (Nat.pow_dvd_pow 2 hk')
  have := Nat.le_of_dvd (Nat.two_pow_pos k) hk2
  rw [pow_succ] at this
  omega

/-- Classes keep aligned through a size at least as aligned as the sizes
    before it. -/
theorem Aligned.trans {pageShift p s m : ℕ} (h1 : Aligned pageShift p s) (h2 : Aligned pageShift s m)
    (hsm : ∀ j ≤ pageShift, 2 ^ j ∣ s → 2 ^ j ∣ m) : Aligned pageShift p m := by
  intro j hj x hpx hxm hx
  by_cases hxs : x ≤ s
  · exact hsm j hj (h1 j hj x hpx hxs hx)
  · exact h2 j hj x (not_le.1 hxs) hxm hx

/-- `m` is a multiple of every alignment up to the page of `s`. -/
def ascends (pageShift s m : ℕ) : Bool := m % Nat.gcd s (2 ^ pageShift) == 0

theorem dvd_of_ascends {pageShift s m j : ℕ} (h : ascends pageShift s m = true) (hj : j ≤ pageShift)
    (hs : 2 ^ j ∣ s) : 2 ^ j ∣ m :=
  (Nat.dvd_gcd hs (Nat.pow_dvd_pow 2 hj)).trans
    (Nat.dvd_of_mod_eq_zero (by simpa [ascends] using h))

/-- The condition on one merge that keeps the classes aligned: `t` joins the
    class of `s` only if it is as aligned, or if the class goes on to the size
    `u` after it, as aligned as both. -/
def locStep (pageShift : ℕ) (span : ℕ → ℕ) (s t : ℕ) (next : Option ℕ) : Bool :=
  ascends pageShift s t || !mergeBit pageShift span s t ||
    match next with
    | some u => mergeBit pageShift span t u && ascends pageShift s u && ascends pageShift t u
    | none => false

/-- Every merge of the grouping keeps the classes aligned. -/
def locAligned (pageShift : ℕ) (span : ℕ → ℕ) : List ℕ → Bool
  | s :: t :: rest => locStep pageShift span s t rest.head? && locAligned pageShift span (t :: rest)
  | _ => true

/-- Classes whose merges keep them aligned, of sizes each aligned after the
    one before, are aligned: the class so far, from `p` to its size `s`, stays
    aligned as sizes join it. -/
theorem alignedFrom_classMaxes {pageShift : ℕ} {span : ℕ → ℕ} :
    ∀ (p s : ℕ) (rest : List ℕ), Aligned pageShift p s → alignedFrom pageShift s rest = true →
      locAligned pageShift span (s :: rest) = true →
      alignedFrom pageShift p (classMaxes pageShift span (s :: rest)) = true
  | p, s, [], hps, _, _ => by simp [classMaxes, alignedFrom, classAligned_iff.2 hps]
  | p, s, t :: rest, hps, hcons, hloc => by
    simp only [alignedFrom, Bool.and_eq_true] at hcons
    simp only [locAligned, Bool.and_eq_true] at hloc
    obtain ⟨hst, hrest⟩ := hcons
    obtain ⟨hstep, hloc'⟩ := hloc
    have hst' := classAligned_iff.1 hst
    by_cases hm : mergeBit pageShift span s t = true
    · rw [classMaxes, if_pos hm]
      by_cases hasc : ascends pageShift s t = true
      · -- `t` is as aligned as `s`: the class to `t` is aligned
        exact alignedFrom_classMaxes p t rest
          (hps.trans hst' fun j hj => dvd_of_ascends hasc hj) hrest hloc'
      · -- `t` is less aligned: the class goes on to a size `u` aligned enough
        cases rest with
        | nil => simp [locStep, hasc, hm] at hstep
        | cons u rest =>
          simp only [locStep, hasc, hm, Bool.false_or, Bool.not_true, List.head?_cons,
            Bool.and_eq_true] at hstep
          obtain ⟨⟨htu, hsu⟩, htu'⟩ := hstep
          simp only [alignedFrom, Bool.and_eq_true] at hrest
          simp only [locAligned, Bool.and_eq_true] at hloc'
          have htu_al := classAligned_iff.1 hrest.1
          have hpu : Aligned pageShift p u :=
            hps.trans (hst'.trans htu_al fun j hj => dvd_of_ascends htu' hj)
              fun j hj => dvd_of_ascends hsu hj
          rw [classMaxes, if_pos htu]
          exact alignedFrom_classMaxes p u rest hpu hrest.2 hloc'.2
    · rw [classMaxes, if_neg hm, alignedFrom, classAligned_iff.2 hps, Bool.true_and]
      exact alignedFrom_classMaxes s t rest hst' hrest hloc'

end Gperftools.SizeMap
