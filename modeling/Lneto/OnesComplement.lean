import Mathlib.Algebra.Ring.Nat
import Mathlib.Tactic.Common

/-!
Ones' complement sums of 16-bit words. Adding with the carry brought back in is
addition modulo 65535 with two names for zero, so a sum can be taken in any
order and in a wider register, to be folded at the end.
-/
namespace Lneto.OnesComplement

open List

def add (a b : ℕ) : ℕ := if a + b < 65536 then a + b else a + b - 65535

def sum (words : List ℕ) : ℕ := words.foldl add 0

/-- Big-endian words; an odd last byte is padded with a zero. -/
def words : List UInt8 → List ℕ
  | [] => []
  | [high] => [high.toNat * 256]
  | high :: low :: rest => (high.toNat * 256 + low.toNat) :: words rest

def total (bytes : List UInt8) : ℕ := (words bytes).sum

/-- Words whose ones' complement sum is the negative zero. -/
def Checks (bytes : List UInt8) : Prop := sum (words bytes) = 65535

instance (bytes : List UInt8) : Decidable (Checks bytes) :=
  inferInstanceAs (Decidable (_ = _))

theorem words_lt (bytes : List UInt8) : ∀ w ∈ words bytes, w < 65536 := by
  fun_induction words bytes with
  | case1 => simp
  | case2 high =>
    have := high.toNat_lt
    simp only [mem_singleton, forall_eq]
    omega
  | case3 high low rest ih =>
    have := high.toNat_lt
    have := low.toNat_lt
    simp only [mem_cons, forall_eq_or_imp]
    exact ⟨by omega, ih⟩

section
variable {front : List UInt8} (heven : front.length % 2 = 0) (back : List UInt8)
include heven back

theorem words_append : words (front ++ back) = words front ++ words back := by
  fun_induction words front with
  | case1 => rfl
  | case2 high => simp at heven
  | case3 high low rest ih =>
    simp only [cons_append, words]
    rw [ih (by simp only [length_cons] at heven; omega)]

theorem total_append : total (front ++ back) = total front + total back := by
  rw [total, words_append heven, sum_append, total, total]

end

theorem total_le (bytes : List UInt8) : total bytes ≤ 65535 * ((bytes.length + 1) / 2) := by
  unfold total
  fun_induction words bytes with
  | case1 => simp
  | case2 high =>
    have := high.toNat_lt
    simp only [sum_cons, sum_nil, length_cons, length_nil]
    omega
  | case3 high low rest ih =>
    have := high.toNat_lt
    have := low.toNat_lt
    simp only [sum_cons, length_cons]
    omega

/-- What a running sum stands for: the same number modulo 65535, and zero only for zero. -/
def Represents (a n : ℕ) : Prop := a ≤ 65535 ∧ a % 65535 = n % 65535 ∧ (a = 0 ↔ n = 0)

theorem Represents.add {a n w : ℕ} (h : Represents a n) (hw : w < 65536) :
    Represents (add a w) (n + w) := by
  obtain ⟨hle, hmod, hzero⟩ := h
  unfold OnesComplement.add
  split <;> refine ⟨by omega, by omega, by omega⟩

theorem represents_foldl (ws : List ℕ) : ∀ {a n : ℕ}, Represents a n → (∀ w ∈ ws, w < 65536) →
    Represents (ws.foldl OnesComplement.add a) (n + ws.sum) := by
  induction ws with
  | nil =>
    intro a n h _
    exact h
  | cons w ws ih =>
  intro a n h hlt
  rw [foldl_cons, sum_cons, ← Nat.add_assoc]
  exact ih (h.add (hlt w mem_cons_self)) fun v hv => hlt v (mem_cons_of_mem w hv)

/-- The sum checks if and only if the plain sum is a multiple of 65535 other than zero. -/
theorem checks_iff (bytes : List UInt8) : Checks bytes ↔ total bytes ≠ 0 ∧ 65535 ∣ total bytes := by
  have h : Represents (sum (words bytes)) (0 + total bytes) :=
    represents_foldl (words bytes) ⟨by omega, rfl, Iff.rfl⟩ (words_lt bytes)
  obtain ⟨hle, hmod, hzero⟩ := h
  unfold Checks
  omega

def fold (n : ℕ) : ℕ := n % 65536 + n / 65536

def complement (n : ℕ) : ℕ := 65535 - (fold n + fold n / 65536) % 65536

theorem fold_represents (n : ℕ) : fold n % 65535 = n % 65535 ∧ (fold n = 0 ↔ n = 0) := by
  have hn : n = 65535 * (n / 65536) + fold n := by
    unfold fold
    omega
  refine ⟨?_, ?_⟩
  · conv_rhs => rw [hn, Nat.mul_add_mod]
  · omega

section
variable {n : ℕ} (h : n < 4294967296)
include h

theorem fold_le : fold n ≤ 131070 := by
  unfold fold
  omega

theorem complement_cases : fold n ≤ 65535 ∧ complement n = 65535 - fold n ∨
      65536 ≤ fold n ∧ complement n = 131070 - fold n := by
  have hle := fold_le h
  unfold complement
  omega

theorem dvd_add_complement : 65535 ∣ n + complement n := by
  have hle := fold_le h
  obtain ⟨hmod, -⟩ := fold_represents n
  rcases complement_cases h with ⟨hc, he⟩ | ⟨hc, he⟩ <;> omega

theorem complement_eq_zero_iff : complement n = 0 ↔ n ≠ 0 ∧ 65535 ∣ n := by
  have hle := fold_le h
  obtain ⟨hmod, hzero⟩ := fold_represents n
  rcases complement_cases h with ⟨hc, he⟩ | ⟨hc, he⟩ <;> omega

end

end Lneto.OnesComplement
