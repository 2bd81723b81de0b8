import Mathlib.Tactic.Ring

set_option autoImplicit false

/-! The status word of `epoch.rs`: 9 bits of active count below 23 bits of epoch,
in one 32 bit word that wraps. The word is the packing of two counters. -/

namespace Yaay.Epoch

def activeCountBits : Nat := 9

def activeCountMask : BitVec 32 := ~~~((~~~(0 : BitVec 32) >>> activeCountBits) <<< activeCountBits)

def epochUnit : BitVec 32 := 1 <<< activeCountBits

def activeCount (status : BitVec 32) : BitVec 32 := status &&& activeCountMask

def epoch (status : BitVec 32) : BitVec 32 := status >>> activeCountBits

/-- The number of epochs that the counter tells apart. -/
def epochs : Nat := 2 ^ 23

/-- The word for so many calls of `next_epoch` and so many active workers. -/
def pack (calls active : Nat) : BitVec 32 := BitVec.ofNat 32 (512 * calls + active)

/-- `Epoch::set_active`: the word it leaves, and its result `status + 1`, which panics on
overflow. -/
def setActive (word : BitVec 32) : BitVec 32 × Option (BitVec 32) :=
  (word + 1, if word.toNat + 1 < 2 ^ 32 then some (word + 1) else none)

/-- `Epoch::set_inactive`: the word it leaves, and the old word `- 1`, which panics on
underflow. -/
def setInactive (word : BitVec 32) : BitVec 32 × Option (BitVec 32) :=
  (word - 1, if 1 ≤ word.toNat then some (word - 1) else none)

private theorem activeCountMask_eq : activeCountMask = 511#32 := by decide

private theorem epochUnit_eq : epochUnit = 512#32 := by decide

variable {calls active : Nat}

private theorem toNat_pack (small : active < 512) :
    (pack calls active).toNat = 512 * (calls % epochs) + active := by
  rw [pack, BitVec.toNat_ofNat, epochs]
  omega

theorem activeCount_pack (small : active < 512) :
    (activeCount (pack calls active)).toNat = active := by
  have mask : (511#32).toNat = 2 ^ 9 - 1 := by decide
  rw [activeCount, activeCountMask_eq, BitVec.toNat_and, mask, Nat.and_two_pow_sub_one_eq_mod,
    toNat_pack small]
  omega

theorem epoch_pack (small : active < 512) :
    (epoch (pack calls active)).toNat = calls % epochs := by
  rw [epoch, activeCountBits, BitVec.toNat_ushiftRight, toNat_pack small, Nat.shiftRight_eq_div_pow]
  omega

theorem activeCount_pack_eq_zero (small : active < 512) :
    activeCount (pack calls active) = 0 ↔ active = 0 := by
  rw [← BitVec.toNat_inj, activeCount_pack small]
  rfl

theorem pack_nextEpoch : pack calls active + epochUnit = pack (calls + 1) active := by
  rw [pack, pack, epochUnit_eq, ← BitVec.ofNat_add]
  congr 1
  ring

theorem pack_setActive : pack calls active + 1 = pack calls (active + 1) := by
  rw [pack, pack, ← Nat.add_assoc]
  exact (BitVec.ofNat_add ..).symm

theorem pack_setInactive : pack calls (active + 1) - 1 = pack calls active := by
  rw [← pack_setActive]
  exact BitVec.add_sub_cancel ..

theorem setActive_pack (small : active + 1 < 512) :
    setActive (pack calls active) =
      (pack calls (active + 1), some (pack calls (active + 1))) := by
  have fits : (pack calls active).toNat + 1 < 2 ^ 32 := by
    rw [toNat_pack (by omega), epochs]
    omega
  rw [setActive, if_pos fits, pack_setActive]

theorem setInactive_pack (small : active + 1 < 512) :
    setInactive (pack calls (active + 1)) = (pack calls active, some (pack calls active)) := by
  have fits : 1 ≤ (pack calls (active + 1)).toNat := by
    rw [toNat_pack small]
    omega
  rw [setInactive, if_pos fits, pack_setInactive]

end Yaay.Epoch
