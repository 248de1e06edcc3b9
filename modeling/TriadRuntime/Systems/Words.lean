import Mathlib.Algebra.Ring.Nat
import Mathlib.Tactic.Common
/-!
# Saturating machine words

Rust's saturating arithmetic on unsigned words: a sum stops at the largest
word and a difference stops at zero.
-/

namespace Systems

/-- `u32::saturating_add`. -/
def UInt32.saturating_add (a b : UInt32) : UInt32 :=
  if a.toNat + b.toNat < 2 ^ 32 then a + b else 4294967295

/-- `u32::saturating_sub`. -/
def UInt32.saturating_sub (a b : UInt32) : UInt32 := if b ≤ a then a - b else 0

/-- `u64::saturating_add`. -/
def UInt64.saturating_add (a b : UInt64) : UInt64 :=
  if a.toNat + b.toNat < 2 ^ 64 then a + b else 18446744073709551615

theorem UInt32.saturating_add_toNat (a b : UInt32) :
    (UInt32.saturating_add a b).toNat = min (a.toNat + b.toNat) (2 ^ 32 - 1) := by
  unfold UInt32.saturating_add
  split
  · rw [UInt32.toNat_add, Nat.mod_eq_of_lt ‹_›]; omega
  · have : (4294967295 : UInt32).toNat = 2 ^ 32 - 1 := rfl
    omega

theorem UInt32.saturating_sub_toNat (a b : UInt32) :
    (UInt32.saturating_sub a b).toNat = a.toNat - b.toNat := by
  unfold UInt32.saturating_sub
  split
  · exact UInt32.toNat_sub_of_le _ _ ‹_›
  · rename_i h
    rw [UInt32.le_iff_toNat_le] at h
    have : (0 : UInt32).toNat = 0 := rfl
    omega

theorem UInt64.saturating_add_toNat (a b : UInt64) :
    (UInt64.saturating_add a b).toNat = min (a.toNat + b.toNat) (2 ^ 64 - 1) := by
  unfold UInt64.saturating_add
  split
  · rw [UInt64.toNat_add, Nat.mod_eq_of_lt ‹_›]; omega
  · have : (18446744073709551615 : UInt64).toNat = 2 ^ 64 - 1 := rfl
    omega

/-- Counting up by ones saturates at the largest word. -/
theorem UInt64.saturating_succ_toNat {a : UInt64} {n : Nat} (h : a.toNat = min (2 ^ 64 - 1) n) :
    (UInt64.saturating_add a 1).toNat = min (2 ^ 64 - 1) (n + 1) := by
  rw [UInt64.saturating_add_toNat, h]
  have : (1 : UInt64).toNat = 1 := rfl
  omega

end Systems
