import Mathlib.Dynamics.PeriodicPts.Defs

set_option autoImplicit false

/-! Words under `x ^ (x << k)`. Over GF(2) this is `1 + S ^ k` for the shift `S`, so
all of these maps commute, and squaring one doubles its distance. -/

namespace Yaay.XorShift

variable {width : Nat}

def xorShift (distance : Nat) (word : BitVec width) : BitVec width :=
  word ^^^ (word <<< distance)

private theorem xorShift_xorShift (first second : Nat) (word : BitVec width) :
    xorShift second (xorShift first word) =
      word ^^^ (word <<< first) ^^^ (word <<< second) ^^^ (word <<< (first + second)) := by
  rw [xorShift, xorShift, BitVec.shiftLeft_xor_distrib, BitVec.shiftLeft_add, BitVec.xor_assoc,
    BitVec.xor_assoc, BitVec.xor_assoc]

theorem xorShift_commute (first second : Nat) :
    Function.Commute (xorShift first : BitVec width → BitVec width) (xorShift second) := by
  intro word
  rw [xorShift_xorShift, xorShift_xorShift, Nat.add_comm second first,
    BitVec.xor_assoc word, BitVec.xor_comm (word <<< second), ← BitVec.xor_assoc word]

private theorem xorShift_twice (distance : Nat) (word : BitVec width) :
    xorShift distance (xorShift distance word) = xorShift (2 * distance) word := by
  rw [xorShift_xorShift, xorShift, BitVec.xor_assoc word, BitVec.xor_self, BitVec.xor_zero,
    Nat.two_mul]

/-- `2 ^ i` rounds shift by `2 ^ i` times the distance. -/
theorem xorShift_iterate (distance i : Nat) :
    (xorShift distance : BitVec width → BitVec width)^[2 ^ i] = xorShift (2 ^ i * distance) := by
  induction i with
  | zero => rw [Nat.pow_zero, Nat.one_mul, Function.iterate_one]
  | succ i ih =>
      rw [Nat.pow_succ, Function.iterate_mul, ih]
      funext word
      rw [Function.iterate_succ_apply, Function.iterate_one, xorShift_twice,
        ← Nat.mul_assoc, Nat.mul_comm 2]

theorem xorShift_of_le {distance : Nat} (long : width ≤ distance) (word : BitVec width) :
    xorShift distance word = word := by
  rw [xorShift, BitVec.shiftLeft_eq_zero long, BitVec.xor_zero]

theorem xorShift_mod {distance low : Nat} (below : low ≤ distance) (word : BitVec width) :
    (xorShift distance word).toNat % 2 ^ low = word.toNat % 2 ^ low := by
  apply Nat.eq_of_testBit_eq
  intro i
  rw [Nat.testBit_mod_two_pow, Nat.testBit_mod_two_pow]
  by_cases inside : i < low
  · have unshifted : ¬ distance ≤ i := by omega
    rw [xorShift, BitVec.testBit_toNat, BitVec.testBit_toNat, BitVec.getLsbD_xor,
      BitVec.getLsbD_shiftLeft]
    simp [Nat.lt_of_not_le unshifted]
  · simp only [inside, decide_false, Bool.false_and]

end Yaay.XorShift
