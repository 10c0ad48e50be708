import Gperftools.AddressMap.Refine

/-!
# `FindInside`

`FindInside(size_func, max_size, key)` looks for the entry whose range
`[k, k + size_func(v))` holds `key`, or whose key is `key` (a range of size
0). It walks back from the block of `key`, block by block and cluster by
cluster, and stops early: at the first block that holds a key below `key`,
and once the distance to `key` exceeds `max_size`.

The first stop is right only when no key of the map lies inside the range
of another entry (`KeysOutside`). Ranges that are disjoint as sets of
addresses need not be so: a range of size 0 inside a larger one hides it
(`findInside_hidden`). With `KeysOutside`, and with every range at most
`max_size` long and ending below `2 ^ 64` (`RangesFit`), the search is exact:

* `blockLoop_spec`, `clusterLoop_spec`: each loop keeps that the addresses
  it has passed hold no key (`NoKeyFrom`), and returns only an answer
  (`Answers`);
* `findInside_eq_some_iff`: `FindInside` returns the key and the value of
  the entry that answers the query, the only one, and nothing when none does.
-/

namespace Gperftools

namespace AddressMap

variable {V : Type*} (m : AddressMap V) (sizeFunc : V → ℕ)

/-! ## The specification -/

/-- Entry `e` answers a query for `q`: its key is `q`, or its range holds
    `q`. -/
def Holds (q e : ℕ) : Prop :=
  (m.entries e).key ≤ q ∧
    ((m.entries e).key = q ∨ q < (m.entries e).key + sizeFunc (m.entries e).value)

instance (q e : ℕ) : Decidable (m.Holds sizeFunc q e) := by
  unfold Holds
  infer_instance

/-- What `FindInside` may return for `q`: an entry of the map that answers
    it, or nothing when none does. -/
def Answers (q : ℕ) : Option ℕ → Prop
  | some e => e ∈ m.mapEntries ∧ m.Holds sizeFunc q e
  | none => ∀ e ∈ m.mapEntries, ¬m.Holds sizeFunc q e

/-- Every range of the map is at most `maxSize` long and ends below
    `2 ^ 64`. -/
def RangesFit (maxSize : ℕ) : Prop :=
  ∀ e ∈ m.mapEntries, sizeFunc (m.entries e).value ≤ maxSize ∧
    (m.entries e).key + sizeFunc (m.entries e).value < 2 ^ 64

instance (maxSize : ℕ) : Decidable (m.RangesFit sizeFunc maxSize) := by
  unfold RangesFit
  infer_instance

/-- No key of the map lies inside the range of another entry. For ranges of
    positive size this says that the ranges are disjoint. -/
def KeysOutside : Prop :=
  ∀ e ∈ m.mapEntries, ∀ e' ∈ m.mapEntries, (m.entries e').key < (m.entries e).key →
    (m.entries e').key + sizeFunc (m.entries e').value ≤ (m.entries e).key

instance : Decidable (m.KeysOutside sizeFunc) := by
  unfold KeysOutside
  infer_instance

/-- No key of the map lies from `lo` up to `q`: the addresses that the
    search has passed. -/
def NoKeyFrom (lo q : ℕ) : Prop :=
  ∀ e ∈ m.mapEntries, lo ≤ (m.entries e).key → q < (m.entries e).key

/-- What a loop over the blocks of the cluster of `num` may end with: an
    answer, or the address it breaks with, in that cluster, with nothing
    from the start of the cluster up to `q`. -/
def ExitOk (q num : ℕ) : Exit → Prop
  | .ret r => m.Answers sizeFunc q r
  | .next num' => num' ≤ q ∧ clusterID num' = clusterID num ∧
      m.NoKeyFrom (num' / 1048576 * 1048576) q

theorem ExitOk.of_clusterID_eq {q num num' : ℕ} (h : clusterID num' = clusterID num) :
    ∀ {x : Exit}, m.ExitOk sizeFunc q num' x → m.ExitOk sizeFunc q num x
  | .ret _, hx => hx
  | .next _, ⟨hle, hid, hclear⟩ => ⟨hle, hid.trans h, hclear⟩

/-! ## Addresses -/

theorem blockID_eq (a : ℕ) : blockID a = a / 128 % 8192 := by
  unfold blockID kBlockBits kClusterBlocks kClusterBits
  rw [Nat.shiftRight_eq_div_pow, Nat.and_two_pow_sub_one_eq_mod]

theorem clusterID_eq (a : ℕ) : clusterID a = a / 1048576 := by
  unfold clusterID kBlockBits kClusterBits
  rw [Nat.shiftRight_eq_div_pow]

/-- `num |= kBlockSize - 1; num -= kBlockSize` goes to the last address of
    the previous block. -/
theorem prevBlock_eq {num : ℕ} (hnum : num < 2 ^ 64) (hb : blockID num ≠ 0) :
    Word.sub 64 (num ||| (kBlockSize - 1)) kBlockSize = num / 128 * 128 - 1 := by
  rw [blockID_eq] at hb
  rw [kBlockSize, Word.or_two_pow_sub_one, kBlockBits, Word.sub_of_le (by omega) (by omega)]
  omega

/-- `num |= kClusterSize - 1; num -= kClusterSize` goes to the last address
    of the previous cluster. -/
theorem prevCluster_eq {num : ℕ} (hnum : num < 2 ^ 64) (hc : kClusterSize ≤ num) :
    Word.sub 64 (num ||| (kClusterSize - 1)) kClusterSize = num / 1048576 * 1048576 - 1 := by
  rw [kClusterSize, Word.or_two_pow_sub_one, kBlockBits, kClusterBits] at *
  norm_num at *
  rw [Word.sub_of_le (by omega) (by omega)]
  omega

/-! ## The map's blocks -/

section Blocks

variable {m}
variable (hm : Inv m)
include hm

/-- A block holds the entries of the map whose keys are in its 128
    addresses. -/
theorem Inv.mem_blockEntries_iff {c num e : ℕ} (hc : c ∈ m.allClusters)
    (hid : (m.clusters c).id = clusterID num) :
    e ∈ m.blockEntries c (blockID num) ↔
      e ∈ m.mapEntries ∧ (m.entries e).key / 128 = num / 128 := by
  have hsame : ∀ a, clusterID a = clusterID num ∧ blockID a = blockID num ↔ a / 128 = num / 128 :=
    fun a => by
      rw [clusterID_eq, clusterID_eq, blockID_eq, blockID_eq]
      omega
  constructor
  · intro he
    obtain ⟨hcid, hbid⟩ := hm.block_key c hc _ (blockID_lt num) e he
    exact ⟨m.mem_mapEntries_of_mem hc (blockID_lt num) he, (hsame _).mp ⟨hcid.trans hid, hbid⟩⟩
  · rintro ⟨he, hkey⟩
    -- the entry is in the block of its key, in the cluster of its id: this one
    obtain ⟨c', hc', b', hb', he'⟩ := m.mem_mapEntries.mp he
    obtain ⟨hcid, hbid⟩ := hm.block_key c' hc' b' hb' e he'
    obtain ⟨hcid', hbid'⟩ := (hsame _).mpr hkey
    have hcc : c' = c := hm.cluster_eq_of_id hc' hc (by rw [← hcid, hcid', hid])
    subst hcc
    rw [← hbid', hbid]
    exact he'

/-- The hash table has a cluster for the key of each entry of the map. -/
theorem Inv.clusterOf_ne_none {e : ℕ} (he : e ∈ m.mapEntries) :
    m.clusterOf (clusterID (m.entries e).key) ≠ none := fun hnone => by
  have hentry := hm.entryOf_eq_some_iff.mpr ⟨he, rfl⟩
  rw [entryOf, hnone, Option.bind_none] at hentry
  exact Option.some_ne_none _ hentry.symm

end Blocks

/-! ## The loops -/

section Loops

variable {m sizeFunc} {maxSize q : ℕ}

/-- The test of the inner loop, `e_num <= key_num && (e_num == key_num ||
    key_num < e_num + size)`, with the sum taken modulo `2 ^ 64`. -/
theorem scanBlock_fst (l : List ℕ) (had : Bool) :
    (m.scanBlock sizeFunc q l had).1 = l.find? fun e => decide ((m.entries e).key ≤ q ∧
      ((m.entries e).key = q ∨ q < Word.add 64 (m.entries e).key (sizeFunc (m.entries e).value))) := by
  induction l generalizing had with
  | nil => rfl
  | cons x l ih =>
    rw [scanBlock, List.find?_cons]
    by_cases h1 : (m.entries x).key ≤ q
    · by_cases h2 : (m.entries x).key = q ∨
          q < Word.add 64 (m.entries x).key (sizeFunc (m.entries x).value)
      · simp [h1, h2]
      · simp only [h1, h2, if_true, if_false, ih, decide_false, true_and]
    · simp only [h1, if_false, ih, decide_false, false_and]

/-- When the inner loop finds nothing, `had_smaller_key` tells whether the
    block holds a key up to `q`. -/
theorem scanBlock_snd (l : List ℕ) (had : Bool) (hnone : (m.scanBlock sizeFunc q l had).1 = none) :
    (m.scanBlock sizeFunc q l had).2 = (had || l.any fun e => decide ((m.entries e).key ≤ q)) := by
  induction l generalizing had with
  | nil => simp [scanBlock]
  | cons x l ih =>
    rw [scanBlock] at hnone ⊢
    by_cases h1 : (m.entries x).key ≤ q
    · by_cases h2 : (m.entries x).key = q ∨
          q < Word.add 64 (m.entries x).key (sizeFunc (m.entries x).value)
      · simp [h1, h2] at hnone
      · simp only [h1, h2, if_true, if_false] at hnone ⊢
        rw [ih true hnone]
        simp [h1]
    · simp only [h1, if_false] at hnone ⊢
      rw [ih had hnone]
      simp [h1]

variable (hm : Inv m) (hq : q < 2 ^ 64) (hfit : m.RangesFit sizeFunc maxSize)
  (hinside : m.KeysOutside sizeFunc)

include hfit in
/-- Where ranges end below `2 ^ 64`, the test of the inner loop is `Holds`. -/
theorem RangesFit.holds_iff {e : ℕ} (he : e ∈ m.mapEntries) :
    ((m.entries e).key ≤ q ∧
      ((m.entries e).key = q ∨ q < Word.add 64 (m.entries e).key (sizeFunc (m.entries e).value))) ↔
      m.Holds sizeFunc q e := by
  rw [Word.add_of_lt (hfit e he).2]
  rfl

include hfit in
/-- Past `maxSize` below `q`, with nothing from there up to `q`, no range
    reaches `q`. -/
theorem answers_none_of_far {num : ℕ} (hclear : m.NoKeyFrom (num + 1) q) (hfar : maxSize < q - num) :
    m.Answers sizeFunc q none := by
  intro e he ⟨hle, hholds⟩
  have hsize := (hfit e he).1
  by_cases hkey : num + 1 ≤ (m.entries e).key
  · exact absurd (hclear e he hkey) (Nat.not_lt.mpr hle)
  · rcases hholds with hkq | hlt <;> omega

include hm hq hfit hinside in
/-- The loop over the blocks of cluster `c`, by induction on the blocks left:
    each block scanned either answers, or holds no key up to `q`, so that
    the addresses from its start up to `q` hold none. -/
theorem blockLoop_spec {c : ℕ} (hc : c ∈ m.allClusters) :
    ∀ (fuel num : ℕ), (m.clusters c).id = clusterID num → blockID num < fuel → num ≤ q →
      m.NoKeyFrom (num + 1) q → m.ExitOk sizeFunc q num (m.blockLoop sizeFunc maxSize q c fuel num) := by
  intro fuel
  induction fuel with
  | zero => intro num _ hfuel; omega
  | succ fuel ih =>
    intro num hid hfuel hnum hclear
    have hblock := fun e => hm.mem_blockEntries_iff (e := e) hc hid
    rw [blockLoop]
    dsimp only
    have hfst := @scanBlock_fst _ m sizeFunc q (m.blockEntries c (blockID num)) false
    have hsnd := @scanBlock_snd _ m sizeFunc q (m.blockEntries c (blockID num)) false
    rw [show Chain.walk m.entryNext m.numEntries ((m.clusters c).blocks (blockID num)) =
      m.blockEntries c (blockID num) from rfl]
    generalize m.scanBlock sizeFunc q (m.blockEntries c (blockID num)) false = r at hfst hsnd
    obtain ⟨found, had⟩ := r
    cases found with
    | some e =>
      -- the entry found answers `q`
      have hmem := List.mem_of_find?_eq_some hfst.symm
      have he := ((hblock e).mp hmem).1
      exact ⟨he, (hfit.holds_iff he).mp (by simpa using List.find?_some hfst.symm)⟩
    | none =>
      have hnot : ∀ e ∈ m.blockEntries c (blockID num), ¬m.Holds sizeFunc q e := fun e hmem hH =>
        by
          have he := ((hblock e).mp hmem).1
          have := List.find?_eq_none.mp hfst.symm e hmem
          simp only [decide_eq_true_eq] at this
          exact this ((hfit.holds_iff he).mpr hH)
      have hsnd := hsnd rfl
      cases had with
      | true =>
        -- a key below `q` in this block: a range before it that held `q`
        -- would hold that key too
        obtain ⟨e₀, hmem₀, hkey₀⟩ : ∃ e₀ ∈ m.blockEntries c (blockID num), (m.entries e₀).key ≤ q := by
          simpa using hsnd.symm
        obtain ⟨he₀, hblock₀⟩ := (hblock e₀).mp hmem₀
        intro e he hH
        by_cases hmem : e ∈ m.blockEntries c (blockID num)
        · exact hnot e hmem hH
        · have hout : (m.entries e).key / 128 ≠ num / 128 := fun h => hmem ((hblock e).mpr ⟨he, h⟩)
          obtain ⟨hle, hholds⟩ := hH
          have hbelow : (m.entries e).key ≤ num := by
            by_contra hgt
            exact absurd (hclear e he (by omega)) (Nat.not_lt.mpr hle)
          have hlt : (m.entries e).key < (m.entries e₀).key := by omega
          have := hinside e₀ he₀ e he hlt
          rcases hholds with hkq | hqlt <;> omega
      | false =>
        -- the block holds no key up to `q`
        have hall : ∀ x ∈ m.blockEntries c (blockID num), q < (m.entries x).key := by
          simpa using hsnd
        have hclear' : m.NoKeyFrom (num / 128 * 128) q := by
          intro e he hlo
          by_cases hhi : num + 1 ≤ (m.entries e).key
          · exact hclear e he hhi
          · exact hall e ((hblock e).mpr ⟨he, by omega⟩)
        have hnum64 : num < 2 ^ 64 := by omega
        by_cases hb0 : blockID num = 0
        · -- block 0 starts the cluster
          rw [if_pos hb0]
          rw [blockID_eq] at hb0
          exact ⟨hnum, rfl, by rwa [show num / 1048576 * 1048576 = num / 128 * 128 by omega]⟩
        · rw [if_neg hb0]
          dsimp only
          rw [prevBlock_eq hnum64 hb0, Word.sub_of_le (by omega) hq]
          have hclear'' : m.NoKeyFrom (num / 128 * 128 - 1 + 1) q := by
            rw [blockID_eq] at hb0
            rwa [show num / 128 * 128 - 1 + 1 = num / 128 * 128 by omega]
          by_cases hfar : q - (num / 128 * 128 - 1) > maxSize
          · rw [if_pos hfar]
            exact answers_none_of_far hfit hclear'' hfar
          · rw [if_neg hfar]
            have hsame : clusterID (num / 128 * 128 - 1) = clusterID num := by
              rw [blockID_eq] at hb0
              rw [clusterID_eq, clusterID_eq]
              omega
            refine (ih _ (hid.trans hsame.symm) ?_ (by omega) hclear'').of_clusterID_eq m sizeFunc hsame
            rw [blockID_eq] at hfuel hb0 ⊢
            omega

include hm hq hfit hinside in
/-- The loop over the clusters, by induction on the clusters left: a
    cluster the hash table lacks holds no key, and one it has is searched by
    `blockLoop`; either way the addresses from its start up to `q` hold
    no key, unless the search has answered. -/
theorem clusterLoop_spec :
    ∀ (fuel num : ℕ), clusterID num < fuel → num ≤ q → m.NoKeyFrom (num + 1) q →
      m.Answers sizeFunc q (m.clusterLoop sizeFunc maxSize q fuel num) := by
  intro fuel
  induction fuel with
  | zero => intro num hfuel; omega
  | succ fuel ih =>
    intro num hfuel hnum hclear
    -- after the blocks of the cluster of `num`: the previous cluster, if any
    have hnext : ∀ num', num' ≤ q → clusterID num' = clusterID num →
        m.NoKeyFrom (num' / 1048576 * 1048576) q →
        m.Answers sizeFunc q (if num' < kClusterSize then none
          else if Word.sub 64 q (Word.sub 64 (num' ||| (kClusterSize - 1)) kClusterSize) > maxSize
            then none
          else m.clusterLoop sizeFunc maxSize q fuel
            (Word.sub 64 (num' ||| (kClusterSize - 1)) kClusterSize)) := by
      intro num' hle hid hclear'
      by_cases hfirst : num' < kClusterSize
      · -- the first cluster: no key up to `q` at all
        rw [if_pos hfirst]
        intro e he hH
        have h0 : num' / 1048576 * 1048576 = 0 := by
          rw [kClusterSize, kBlockBits, kClusterBits] at hfirst
          norm_num at hfirst
          omega
        exact absurd (hclear' e he (by omega)) (Nat.not_lt.mpr hH.1)
      · rw [if_neg hfirst]
        have hnum64 : num' < 2 ^ 64 := by omega
        rw [prevCluster_eq hnum64 (Nat.not_lt.mp hfirst), Word.sub_of_le (by omega) hq]
        rw [kClusterSize, kBlockBits, kClusterBits] at hfirst
        norm_num at hfirst
        -- stated with `rwa`: a cast here would make the kernel unfold the product
        have hclear'' : m.NoKeyFrom (num' / 1048576 * 1048576 - 1 + 1) q := by
          rwa [show num' / 1048576 * 1048576 - 1 + 1 = num' / 1048576 * 1048576 by omega]
        by_cases hfar : q - (num' / 1048576 * 1048576 - 1) > maxSize
        · rw [if_pos hfar]
          exact answers_none_of_far hfit hclear'' hfar
        · rw [if_neg hfar]
          refine ih _ ?_ (by omega) hclear''
          rw [clusterID_eq, clusterID_eq] at *
          omega
    rw [clusterLoop]
    dsimp only
    rw [hm.findCluster_false]
    cases hc : m.clusterOf (clusterID num) with
    | some c =>
      -- the cluster is searched block by block
      obtain ⟨hc', hid⟩ := clusterOf_spec hc
      have hexit := blockLoop_spec hm hq hfit hinside hc' _ _ hid (blockID_lt num) hnum hclear
      dsimp only
      generalize m.blockLoop sizeFunc maxSize q c kClusterBlocks num = x at hexit ⊢
      cases x with
      | ret r => exact hexit
      | next num' => exact hnext num' hexit.1 hexit.2.1 hexit.2.2
    | none =>
      refine hnext num hnum rfl fun e he hlo => ?_
      by_cases hhi : num + 1 ≤ (m.entries e).key
      · exact hclear e he hhi
      · -- a key in the cluster of `num` would have the cluster in the table
        have hid : clusterID (m.entries e).key = clusterID num := by
          rw [clusterID_eq, clusterID_eq]
          omega
        exact absurd (hid ▸ hc) (hm.clusterOf_ne_none he)

include hm hinside in
/-- Two entries that answer a query are the same: the one with the lower
    key would hold the other's key in its range. -/
theorem holds_unique {e e' : ℕ} (he : e ∈ m.mapEntries) (he' : e' ∈ m.mapEntries)
    (hH : m.Holds sizeFunc q e) (hH' : m.Holds sizeFunc q e') : e = e' := by
  have hkey : (m.entries e).key = (m.entries e').key := by
    obtain ⟨hle, hholds⟩ := hH
    obtain ⟨hle', hholds'⟩ := hH'
    rcases Nat.lt_trichotomy (m.entries e).key (m.entries e').key with hlt | heq | hgt
    · have := hinside e' he' e he hlt
      rcases hholds with h | h <;> omega
    · exact heq
    · have := hinside e he e' he' hgt
      rcases hholds' with h | h <;> omega
  have h := hm.entryOf_eq_some_iff.mpr ⟨he, rfl⟩
  rw [hkey, hm.entryOf_eq_some_iff.mpr ⟨he', rfl⟩] at h
  exact (Option.some_inj.mp h).symm

include hm hq hfit hinside in
/-- `FindInside` is exact where no key lies inside another entry's range,
    every range is at most `maxSize` long and ends below `2 ^ 64`: it returns
    the key and the value of the entry that answers `q`, and nothing when no
    entry does. -/
theorem findInside_eq_some_iff {k : ℕ} {v : V} :
    m.findInside sizeFunc maxSize q = some (k, v) ↔
      ∃ e ∈ m.mapEntries, m.Holds sizeFunc q e ∧ (m.entries e).key = k ∧ (m.entries e).value = v := by
  have hanswers := clusterLoop_spec hm hq hfit hinside (q / 1048576 + 1) q
    (by rw [clusterID_eq]; omega) le_rfl fun e _ h => h
  rw [findInside, show q / kClusterSize = q / 1048576 by rfl]
  generalize m.clusterLoop sizeFunc maxSize q (q / 1048576 + 1) q = r at hanswers
  cases r with
  | none =>
    simp only [Option.map_none, reduceCtorEq, false_iff, not_exists, not_and]
    exact fun e he hH _ _ => hanswers e he hH
  | some e =>
    obtain ⟨he, hH⟩ := hanswers
    simp only [Option.map_some, Option.some_inj, Prod.mk.injEq]
    constructor
    · rintro ⟨rfl, rfl⟩
      exact ⟨e, he, hH, rfl, rfl⟩
    · rintro ⟨e', he', hH', rfl, rfl⟩
      rw [holds_unique hm hinside he he' hH hH']
      exact ⟨rfl, rfl⟩

end Loops

theorem findInside_eq_some_iff_two_ranges :
    Inv ((init : AddressMap ℕ).run [.insert 100 50, .insert 300 10]) ∧ 120 < 2 ^ 64 ∧
      ((init : AddressMap ℕ).run [.insert 100 50, .insert 300 10]).RangesFit id 50 ∧
      ((init : AddressMap ℕ).run [.insert 100 50, .insert 300 10]).KeysOutside id ∧
      (((init : AddressMap ℕ).run [.insert 100 50, .insert 300 10]).findInside id 50 120 =
          some (100, 50) ↔
        ∃ e ∈ ((init : AddressMap ℕ).run [.insert 100 50, .insert 300 10]).mapEntries,
          ((init : AddressMap ℕ).run [.insert 100 50, .insert 300 10]).Holds id 120 e ∧
          (((init : AddressMap ℕ).run [.insert 100 50, .insert 300 10]).entries e).key = 100 ∧
          (((init : AddressMap ℕ).run [.insert 100 50, .insert 300 10]).entries e).value = 50) := by
  have hm := (init_inv.run (V := ℕ) [.insert 100 50, .insert 300 10]).1
  have hmap : ((init : AddressMap ℕ).run [.insert 100 50, .insert 300 10]).mapEntries = [0, 1] := by
    decide +kernel
  have hfit : ((init : AddressMap ℕ).run [.insert 100 50, .insert 300 10]).RangesFit id 50 := by
    unfold RangesFit
    rw [hmap]
    decide
  have hinside : ((init : AddressMap ℕ).run [.insert 100 50, .insert 300 10]).KeysOutside id := by
    unfold KeysOutside
    rw [hmap]
    decide
  exact ⟨hm, by decide, hfit, hinside, findInside_eq_some_iff hm (by decide) hfit hinside⟩

/-- A range of size 0 at 140, inside the range `[100, 150)` of the entry at
    100, hides that entry from a query for 145: the block of 145 holds the
    key 140, below 145, and the search stops there. The two ranges are
    disjoint as sets of addresses, and neither is longer than 50. -/
theorem findInside_hidden :
    ((init : AddressMap ℕ).run [.insert 100 50, .insert 140 0]).find =
        Function.update (Function.update (fun _ => none) 100 (some 50)) 140 (some 0) ∧
      ((init : AddressMap ℕ).run [.insert 100 50, .insert 140 0]).findInside id 50 145 = none := by
  refine ⟨?_, by decide⟩
  rw [(init_inv.run _).2, show (init : AddressMap ℕ).find = fun _ => none from funext find_init]
  rfl

end AddressMap

end Gperftools
