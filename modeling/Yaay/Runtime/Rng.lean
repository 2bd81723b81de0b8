import Mathlib.Data.Fintype.Card
import Yaay.XorShift

set_option autoImplicit false

/-! The random generator of `rng.rs`. All three of its shifts go to the left, so its
period is at most 8 and it never changes the lowest 5 bits of a seed. -/

namespace Yaay.Rng

open XorShift

def nextSeed (seed : BitVec 32) : BitVec 32 :=
  let seed := seed ^^^ (seed <<< 13)
  let seed := seed ^^^ (seed <<< 17)
  seed ^^^ (seed <<< 5)

/-- From the seed on, `next_seed` comes to every residue. `try_steal` takes the seed
modulo `n - 1`, `spawn` modulo `n`. -/
def Covers (modulus : Nat) (seed : BitVec 32) : Prop :=
  ∀ residue < modulus, ∃ rounds, (nextSeed^[rounds] seed).toNat % modulus = residue

variable {modulus : Nat} {seed : BitVec 32}

private theorem nextSeed_eq_comp : nextSeed = xorShift 5 ∘ (xorShift 17 ∘ xorShift 13) := rfl

private theorem nextSeed_periodic (seed : BitVec 32) : Function.IsPeriodicPt nextSeed 8 seed := by
  have inner : Function.Commute (xorShift 17 : BitVec 32 → BitVec 32) (xorShift 13) :=
    xorShift_commute 17 13
  have outer : Function.Commute (xorShift 5 : BitVec 32 → BitVec 32) (xorShift 17 ∘ xorShift 13) :=
    (xorShift_commute 5 17).comp_right (xorShift_commute 5 13)
  have eight : 8 = 2 ^ 3 := rfl
  rw [Function.IsPeriodicPt, Function.IsFixedPt, nextSeed_eq_comp, outer.comp_iterate,
    inner.comp_iterate, eight, xorShift_iterate, xorShift_iterate, xorShift_iterate]
  simp only [Function.comp_apply]
  rw [xorShift_of_le (by decide), xorShift_of_le (by decide), xorShift_of_le (by decide)]

private theorem nextSeed_mod (seed : BitVec 32) :
    (nextSeed seed).toNat % 2 ^ 5 = seed.toNat % 2 ^ 5 := by
  rw [nextSeed_eq_comp, Function.comp_apply, Function.comp_apply, xorShift_mod (by decide),
    xorShift_mod (by decide), xorShift_mod (by decide)]

theorem iterate_mod (rounds : Nat) (seed : BitVec 32) :
    (nextSeed^[rounds] seed).toNat % 2 ^ 5 = seed.toNat % 2 ^ 5 := by
  induction rounds with
  | zero => rfl
  | succ rounds ih => rw [Function.iterate_succ_apply', nextSeed_mod, ih]

theorem Covers.le_eight (covers : Covers modulus seed) : modulus ≤ 8 := by
  choose rounds reaches using covers
  let place (residue : Fin modulus) : Fin 8 :=
    ⟨rounds residue residue.isLt % 8, Nat.mod_lt _ (by decide)⟩
  have injective : Function.Injective place := by
    intro left right same
    have equal : rounds left left.isLt % 8 = rounds right right.isLt % 8 :=
      congrArg Fin.val same
    apply Fin.ext
    rw [← reaches left left.isLt, ← reaches right right.isLt,
      ← (nextSeed_periodic seed).iterate_mod_apply, equal,
      (nextSeed_periodic seed).iterate_mod_apply]
  have fewer := Fintype.card_le_of_injective place injective
  rwa [Fintype.card_fin, Fintype.card_fin] at fewer

/-- An even modulus keeps the seed's parity, and the parity never changes. -/
theorem Covers.odd (covers : Covers modulus seed) (positive : 0 < modulus) :
    modulus % 2 = 1 := by
  by_contra even
  have divides : 2 ∣ modulus := by omega
  have parity (residue : Nat) (below : residue < modulus) : residue % 2 = seed.toNat % 2 := by
    obtain ⟨rounds, reaches⟩ := covers residue below
    have frozen := iterate_mod rounds seed
    rw [← reaches, Nat.mod_mod_of_dvd _ divides]
    omega
  have zero := parity 0 positive
  have one := parity 1 (by omega)
  omega

theorem Covers.modulus_of (covers : Covers modulus seed) (positive : 0 < modulus) :
    modulus = 1 ∨ modulus = 3 ∨ modulus = 5 ∨ modulus = 7 := by
  have few := covers.le_eight
  have odd := covers.odd positive
  omega

/-- With any number of workers and any seed, the random choice of a victim or that of a
target misses some worker for ever; most numbers of workers let both miss one. -/
theorem selection_never_covers {n : Nat} (two : 2 ≤ n) (seed : BitVec 32) :
    (Covers (n - 1) seed → n = 2 ∨ n = 4 ∨ n = 6 ∨ n = 8) ∧
      (Covers n seed → n = 3 ∨ n = 5 ∨ n = 7) ∧
      ¬ (Covers (n - 1) seed ∧ Covers n seed) := by
  have victims (covers : Covers (n - 1) seed) : n = 2 ∨ n = 4 ∨ n = 6 ∨ n = 8 := by
    have moduli := covers.modulus_of (by omega)
    omega
  have targets (covers : Covers n seed) : n = 3 ∨ n = 5 ∨ n = 7 := by
    have moduli := covers.modulus_of (by omega)
    omega
  refine ⟨victims, targets, ?_⟩
  rintro ⟨steals, spawns⟩
  have even := victims steals
  have odd := targets spawns
  omega

theorem selection_never_covers_five :
    2 ≤ 5 ∧ ¬ (Covers (5 - 1) 6 ∧ Covers 5 6) :=
  ⟨by decide, (selection_never_covers (by decide) 6).2.2⟩

/-- Five workers and the seed 6: a victim has an even index, whatever the seed becomes. -/
theorem odd_victims_never_probed :
    2 ≤ 5 ∧ 5 < 512 ∧ (6 : BitVec 32) ≠ 0 ∧ ¬ (Covers (5 - 1) 6 ∧ Covers 5 6) := by
  refine ⟨by decide, by decide, by decide, ?_⟩
  rintro ⟨steals, _spawns⟩
  have odd := steals.odd (by decide)
  contradiction

end Yaay.Rng
