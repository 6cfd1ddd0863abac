import Mathlib.Tactic.Common

/-!
Total correctness of programs that may stop, and loops over an index range with
an early return. A program ensures a postcondition when it returns a value and
the value meets it; a loop keeps what each of its rounds keeps.
-/
namespace Lneto.RangeLoops

universe u v

variable {π : Type v} {α β σ ρ : Type u}

/-- The program returns, and what it returns meets the postcondition. -/
def Ensures (r : Except π α) (P : α → Prop) : Prop := ∃ a, r = .ok a ∧ P a

theorem Ensures.pure {a : α} {P : α → Prop} (h : P a) : Ensures (.ok a : Except π α) P :=
  ⟨a, rfl, h⟩

theorem Ensures.mono {r : Except π α} {P Q : α → Prop} (h : Ensures r P) (hPQ : ∀ a, P a → Q a) :
    Ensures r Q := by
  obtain ⟨a, ha, hP⟩ := h
  exact ⟨a, ha, hPQ a hP⟩

theorem Ensures.bind {r : Except π α} {f : α → Except π β} {P : α → Prop} {Q : β → Prop}
    (h : Ensures r P) (hf : ∀ a, P a → Ensures (f a) Q) : Ensures (r >>= f) Q := by
  obtain ⟨a, rfl, hP⟩ := h
  exact hf a hP

theorem Ensures.of_ok {r : Except π α} {P : α → Prop} {a : α} (h : Ensures r P)
    (ha : r = .ok a) : P a := by
  obtain ⟨b, hb, hP⟩ := h
  cases hb.symm.trans ha
  exact hP

/-- Rounds i, i+1, … of a loop; a round that gives a result ends the loop with it. -/
def scan (body : σ → ℕ → Except π (σ × Option ρ)) : ℕ → ℕ → σ → Except π (σ × Option ρ)
  | 0, _, s => .ok (s, none)
  | rounds + 1, i, s => do
    let (s, out) ← body s i
    match out with
    | some out => .ok (s, some out)
    | none => scan body rounds (i + 1) s

theorem scan_ensures {body : σ → ℕ → Except π (σ × Option ρ)} {I : σ → Prop}
    (hbody : ∀ s i, I s → Ensures (body s i) fun out => I out.1) :
    ∀ (rounds i : ℕ) (s : σ), I s → Ensures (scan body rounds i s) fun out => I out.1 := by
  intro rounds
  induction rounds with
  | zero =>
    intro i s hs
    exact .pure hs
  | succ rounds ih =>
  intro i s hs
  apply (hbody s i hs).bind
  rintro ⟨t, out⟩ ht
  cases out with
  | some out => exact .pure ht
  | none => exact ih (i + 1) t ht

end Lneto.RangeLoops
