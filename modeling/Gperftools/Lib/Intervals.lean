import Mathlib.Data.List.Pairwise
import Mathlib.Data.List.Perm.Basic

/-!
# Intervals of addresses

A block of memory is the interval `[addr, addr + size)` of addresses, given
as the pair `(addr, size)`. Two blocks are apart when they share no address,
and separated when, besides, they do not touch: an address lies between
them. A family of regions handed out by a pages allocator that never maps a
region next to another is separated.

* `exists_within`: a block whose addresses all lie in a separated family of
  regions lies in one of them;
* `mem_of_covered_iff`, `perm_of_covered_iff`: two separated families of
  nonempty blocks that cover the same addresses are the same blocks. A
  tiling of separated regions in which no two blocks touch has one block per
  region;
* `in_join`, `in_cut`: joining two blocks that touch, or cutting one in two,
  keeps the addresses covered; `apart_of_covered`: a block whose addresses
  lie in blocks apart from `a` is apart from `a`, and
  `apart_of_covered_of_covered`: blocks in two families apart from each
  other are apart;
* `pairwise_apart_of_covered`: so a family of blocks apart from each other may
  replace part of another when it covers no more than that part: what a
  free list does when it takes in or hands out a block.
-/

namespace Intervals

/-- The address `x` lies in the block `b`. -/
def In (x : ℕ) (b : ℕ × ℕ) : Prop := b.1 ≤ x ∧ x < b.1 + b.2

/-- The address `x` lies in a block of `bs`. -/
def Covered (bs : List (ℕ × ℕ)) (x : ℕ) : Prop := ∃ b ∈ bs, In x b

/-- The blocks share no address. -/
def Apart (b c : ℕ × ℕ) : Prop := ∀ x, In x b → ¬ In x c

/-- The blocks share no address and do not touch. -/
def Separated (b c : ℕ × ℕ) : Prop := b.1 + b.2 < c.1 ∨ c.1 + c.2 < b.1

instance : DecidableRel Separated := fun _ _ => inferInstanceAs (Decidable (_ ∨ _))

variable {b c a : ℕ × ℕ} {bs rs : List (ℕ × ℕ)} {x : ℕ}

theorem Apart.symm (h : Apart b c) : Apart c b := fun x hc hb => h x hb hc

theorem Separated.symm (h : Separated b c) : Separated c b := Or.symm h

instance : Std.Symm Separated := ⟨fun _ _ => Separated.symm⟩

theorem Separated.apart (h : Separated b c) : Apart b c := by
  intro x hb hc
  unfold In at hb hc
  rcases h with h | h <;> omega

/-- A block apart from a nonempty block that starts no earlier ends before
    that block starts. -/
theorem Apart.end_le (h : Apart b c) (hc : 0 < c.2) (hbc : b.1 ≤ c.1) : b.1 + b.2 ≤ c.1 := by
  by_contra hlt
  exact h c.1 ⟨hbc, by omega⟩ ⟨Nat.le_refl _, by omega⟩

/-- A part of a block is separated from what the block is separated from. -/
theorem Separated.mono {b' : ℕ × ℕ} (h : Separated b c) (hlo : b.1 ≤ b'.1)
    (hhi : b'.1 + b'.2 ≤ b.1 + b.2) : Separated b' c := by
  unfold Separated at *
  omega

@[simp] theorem covered_nil : ¬ Covered [] x := by
  simp [Covered]

@[simp] theorem covered_cons : Covered (b :: bs) x ↔ In x b ∨ Covered bs x := by
  simp [Covered]

@[simp] theorem covered_append {bs' : List (ℕ × ℕ)} :
    Covered (bs ++ bs') x ↔ Covered bs x ∨ Covered bs' x := by
  simp only [Covered, List.mem_append]
  constructor
  · rintro ⟨b, hb | hb, hx⟩
    · exact .inl ⟨b, hb, hx⟩
    · exact .inr ⟨b, hb, hx⟩
  · rintro (⟨b, hb, hx⟩ | ⟨b, hb, hx⟩)
    · exact ⟨b, .inl hb, hx⟩
    · exact ⟨b, .inr hb, hx⟩

/-- Coverage reads the blocks, not their order. -/
theorem covered_perm (h : bs.Perm rs) : Covered bs x ↔ Covered rs x := by
  simp only [Covered, h.mem_iff]

/-- Two blocks that touch cover what they cover joined. -/
theorem in_join (h : b.1 + b.2 = c.1) : In x (b.1, b.2 + c.2) ↔ In x b ∨ In x c := by
  unfold In
  omega

/-- A block cut in two covers what its two parts cover. -/
theorem in_cut {addr n k : ℕ} (hk : k ≤ n) : In x (addr, n) ↔ In x (addr, k) ∨ In x (addr + k, n - k) := by
  unfold In
  omega

/-- The two parts of a cut block are apart. -/
theorem apart_cut (addr k m : ℕ) : Apart (addr, k) (addr + k, m) := by
  intro x hx hy
  unfold In at hx hy
  dsimp only at hx hy
  omega

/-- A part of a block is apart from what the block is apart from. -/
theorem Apart.of_within {b' : ℕ × ℕ} (h : Apart b c) (hb : ∀ x, In x b' → In x b) : Apart b' c :=
  fun x hx hc => h x (hb x hx) hc

/-- A block whose addresses lie in blocks apart from `a` is apart from `a`. -/
theorem apart_of_covered (hcov : ∀ x, In x b → Covered bs x) (hbs : ∀ c ∈ bs, Apart c a) :
    Apart b a := by
  intro x hb ha
  obtain ⟨c, hc, hx⟩ := hcov x hb
  exact hbs c hc x hx ha

/-- Blocks that lie in two families, every block of one apart from every
    block of the other, are apart. -/
theorem apart_of_covered_of_covered {cs : List (ℕ × ℕ)} (hb : ∀ x, In x b → Covered bs x)
    (hc : ∀ x, In x c → Covered cs x) (h : ∀ r ∈ bs, ∀ r' ∈ cs, Apart r r') : Apart b c :=
  apart_of_covered hb fun r hr => (apart_of_covered hc fun r' hr' => (h r hr r' hr').symm).symm

/-- A family of blocks apart from each other can stand in for part of a
    family of blocks apart from each other, when it covers no more than that
    part. -/
theorem pairwise_apart_of_covered {bs' cs : List (ℕ × ℕ)} (h : (bs ++ cs).Pairwise Apart)
    (h' : bs'.Pairwise Apart) (hcov : ∀ x, Covered bs' x → Covered bs x) :
    (bs' ++ cs).Pairwise Apart := by
  rw [List.pairwise_append] at h ⊢
  obtain ⟨-, hcs, hbc⟩ := h
  refine ⟨h', hcs, fun b hb c hc => ?_⟩
  exact apart_of_covered (fun x hx => hcov x ⟨b, hb, hx⟩) fun d hd => hbc d hd c hc

section Separated

variable (hrs : rs.Pairwise Separated)
include hrs

/-- In a separated family, the blocks are distinct. -/
theorem nodup_of_separated : rs.Nodup :=
  hrs.imp fun {R R'} h heq => by
    subst heq
    rcases h with h | h <;> omega

/-- A nonempty block whose addresses lie in a separated family of regions
    lies in one of them: where it would leave its first region, the next
    address is in no region. -/
theorem exists_within (hb : 0 < b.2) (hcov : ∀ x, In x b → Covered rs x) :
    ∃ R ∈ rs, R.1 ≤ b.1 ∧ b.1 + b.2 ≤ R.1 + R.2 := by
  obtain ⟨R, hR, hstart⟩ := hcov b.1 ⟨Nat.le_refl _, by omega⟩
  refine ⟨R, hR, hstart.1, ?_⟩
  by_contra hend
  -- the end of `R` is an address of `b`, in a region `R'` other than `R`
  obtain ⟨R', hR', hR'x⟩ := hcov (R.1 + R.2) ⟨by unfold In at hstart; omega, by omega⟩
  have hne : R ≠ R' := by
    rintro rfl
    unfold In at hR'x
    omega
  have hsep := hrs.forall hR hR' hne
  unfold In at hstart hR'x
  rcases hsep with h | h <;> omega

end Separated

section Tiling

variable (hbs : bs.Pairwise Separated) (hrs : rs.Pairwise Separated)
  (hbpos : ∀ b ∈ bs, 0 < b.2) (hrpos : ∀ R ∈ rs, 0 < R.2)
  (hcov : ∀ x, Covered bs x ↔ Covered rs x)
include hbs hrs hbpos hrpos hcov

/-- Two separated families of nonempty blocks that cover the same addresses
    have the same blocks: a block lies in a region, which lies in a block, and
    two blocks of a separated family do not nest. -/
theorem mem_of_covered_iff (hb : b ∈ bs) : b ∈ rs := by
  obtain ⟨R, hR, hbR⟩ := exists_within hrs (hbpos b hb) fun x hx => (hcov x).mp ⟨b, hb, hx⟩
  obtain ⟨c, hc, hRc⟩ := exists_within hbs (hrpos R hR) fun x hx => (hcov x).mpr ⟨R, hR, hx⟩
  have hbc : b = c := by
    by_contra hne
    have hsep := hbs.forall hb hc hne
    have := hbpos b hb
    rcases hsep with h | h <;> omega
  subst hbc
  have hRb : R = b := Prod.ext (by omega) (by omega)
  exact hRb ▸ hR

theorem perm_of_covered_iff : bs.Perm rs :=
  (List.perm_ext_iff_of_nodup (nodup_of_separated hbs) (nodup_of_separated hrs)).mpr fun _ =>
    ⟨mem_of_covered_iff hbs hrs hbpos hrpos hcov,
      mem_of_covered_iff hrs hbs hrpos hbpos fun x => (hcov x).symm⟩

end Tiling

end Intervals
