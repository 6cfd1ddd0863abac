import Mathlib.Data.BitVec
import Mathlib.Algebra.Order.Ring.Nat
import Mathlib.Tactic.Common

/-!
Serial-number arithmetic on fixed-width words.
A word is read as a position past a chosen base. Two positions at most half
the number space apart are ordered as natural numbers, whatever the base, so
that every serial comparison becomes a comparison of offsets.
-/
namespace Lneto.SerialNumbers

variable {w : ℕ}

def advance (base : BitVec w) (n : ℕ) : BitVec w := base + BitVec.ofNat w n

/-- How far the second word lies past the first, going forward. -/
def ahead (a b : BitVec w) : ℕ := (b - a).toNat

/-- The serial order: the signed difference is negative. -/
def Before (a b : BitVec w) : Prop := (a - b).toInt < 0

instance (a b : BitVec w) : Decidable (Before a b) := by
  unfold Before
  infer_instance

theorem ahead_lt (a b : BitVec w) : ahead a b < 2 ^ w := (b - a).isLt

@[simp] theorem ahead_self (a : BitVec w) : ahead a a = 0 := by
  simp [ahead]

@[simp] theorem advance_zero (base : BitVec w) : advance base 0 = base := by
  simp [advance]

theorem advance_advance (base : BitVec w) (m n : ℕ) :
    advance (advance base m) n = advance base (m + n) := by
  simp only [advance, BitVec.add_assoc, BitVec.ofNat_add]

theorem advance_ahead (a b : BitVec w) : advance a (ahead a b) = b := by
  simp only [advance, ahead, BitVec.ofNat_toNat, BitVec.setWidth_eq]
  rw [BitVec.add_comm, BitVec.sub_add_cancel]

theorem ahead_eq_zero_iff (a b : BitVec w) : ahead a b = 0 ↔ a = b := by
  constructor
  · intro h
    have hadv := advance_ahead a b
    rw [h, advance_zero] at hadv
    exact hadv
  · rintro rfl
    exact ahead_self a

theorem ahead_advance (base : BitVec w) (n : ℕ) (hn : n < 2 ^ w) :
    ahead base (advance base n) = n := by
  have hsub : advance base n - base = BitVec.ofNat w n := by
    rw [advance, BitVec.add_comm, BitVec.add_sub_cancel]
  rw [ahead, hsub, BitVec.toNat_ofNat, Nat.mod_eq_of_lt hn]

/-- Distances between two positions of one base are differences of offsets. -/
theorem ahead_advance_advance (base : BitVec w) {m n : ℕ} (hmn : m ≤ n)
    (hlt : n - m < 2 ^ w) : ahead (advance base m) (advance base n) = n - m := by
  have hn : n = m + (n - m) := by omega
  rw [hn, ← advance_advance]
  simpa using ahead_advance (advance base m) (n - m) hlt

theorem ahead_add_ahead (a b : BitVec w) (hab : a ≠ b) : ahead a b + ahead b a = 2 ^ w := by
  have hpos : 0 < ahead a b := by
    rcases Nat.eq_zero_or_pos (ahead a b) with h | h
    · exact absurd ((ahead_eq_zero_iff a b).mp h) hab
    · exact h
  have hlt := ahead_lt a b
  have hneg : a - b = -(b - a) := by rw [BitVec.neg_sub, BitVec.add_comm, BitVec.sub_eq_add_neg]
  have hba : ahead b a = (2 ^ w - ahead a b) % 2 ^ w := by
    simp only [ahead]
    rw [hneg, BitVec.toNat_neg]
  rw [hba, Nat.mod_eq_of_lt (by omega)]
  omega

theorem before_iff (hw : 0 < w) (a b : BitVec w) :
    Before a b ↔ 0 < ahead a b ∧ ahead a b ≤ 2 ^ (w - 1) := by
  have hpow : 2 ^ w = 2 * 2 ^ (w - 1) := by
    rw [← Nat.pow_succ']
    congr 1
    omega
  have hself : (a - b).toNat = ahead b a := rfl
  have hlt := ahead_lt b a
  unfold Before
  rw [BitVec.toInt_eq_toNat_cond, hself]
  by_cases hab : a = b
  · subst hab
    have hpos : 0 < 2 ^ w := Nat.two_pow_pos w
    simp [hpos]
  have hsum := ahead_add_ahead a b hab
  split
  · omega
  · omega

theorem before_advance_iff (hw : 0 < w) (base : BitVec w) {m n : ℕ} (hmn : m < n + 2 ^ (w - 1))
    (hnm : n ≤ m + 2 ^ (w - 1)) : Before (advance base m) (advance base n) ↔ m < n := by
  have hpow : 2 ^ w = 2 * 2 ^ (w - 1) := by
    rw [← Nat.pow_succ']
    congr 1
    omega
  have hhalf : 0 < 2 ^ (w - 1) := Nat.two_pow_pos _
  rw [before_iff hw]
  rcases Nat.lt_trichotomy m n with hlt | heq | hgt
  · rw [ahead_advance_advance base (le_of_lt hlt) (by omega)]
    omega
  · subst heq
    simp
  have hback := ahead_advance_advance base (le_of_lt hgt) (by omega)
  have hne : advance base n ≠ advance base m := by
    intro heq
    have := (ahead_eq_zero_iff _ _).mpr heq
    omega
  have hsum := ahead_add_ahead _ _ hne
  omega

end Lneto.SerialNumbers
