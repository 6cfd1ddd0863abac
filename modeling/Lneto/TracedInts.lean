import Mathlib.Algebra.Order.Ring.Int
import Mathlib.Tactic.Common

/-!
Machine arithmetic that notes its overflows. A computation has the value the
machine has, wrapped where the machine wraps, and remembers whether every
result on the way was in range.
-/
namespace Lneto.TracedInts

structure Traced (α : Type*) where
  val : α
  /-- Nothing has wrapped so far. -/
  inRange : Bool
deriving DecidableEq, Repr

instance : Monad Traced where
  pure a := ⟨a, true⟩
  bind x f := ⟨(f x.val).val, x.inRange && (f x.val).inRange⟩

variable {α β : Type}

@[simp] theorem pure_then (a : α) (f : α → Traced β) : (pure a : Traced α) >>= f = f a := rfl

def int64 (x : ℤ) : Traced ℤ := ⟨x.bmod (2 ^ 64), decide (-2 ^ 63 ≤ x ∧ x < 2 ^ 63)⟩

def uint64 (x : ℤ) : Traced ℤ := ⟨x.emod (2 ^ 64), decide (0 ≤ x ∧ x < 2 ^ 64)⟩

theorem int64_exact {x : ℤ} (hlow : -2 ^ 63 ≤ x) (hhigh : x < 2 ^ 63) : int64 x = pure x := by
  have hmod : x.bmod (2 ^ 64) = x := by
    apply Int.bmod_eq_of_le
    · omega
    · omega
  rw [int64, hmod, decide_eq_true ⟨hlow, hhigh⟩]
  rfl

theorem int64_of_inRange {x : ℤ} (h : (int64 x).inRange = true) : int64 x = pure x := by
  obtain ⟨hlow, hhigh⟩ := of_decide_eq_true h
  exact int64_exact hlow hhigh

/-- What nothing wrapped in has only values that did not wrap. -/
theorem int64_then {x : ℤ} {f : ℤ → Traced β} {b : β} (h : int64 x >>= f = pure b) :
    f x = pure b := by
  have hrange := Bool.and_eq_true_iff.1 (congrArg Traced.inRange h)
  rwa [int64_of_inRange hrange.1, pure_then] at h

theorem uint64_exact {x : ℤ} (hlow : 0 ≤ x) (hhigh : x < 2 ^ 64) : uint64 x = pure x := by
  rw [uint64, decide_eq_true ⟨hlow, hhigh⟩]
  congr 1
  exact Int.emod_eq_of_lt hlow hhigh

end Lneto.TracedInts
