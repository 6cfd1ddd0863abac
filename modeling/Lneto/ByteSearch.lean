import Mathlib.Tactic.Common

/-!
The first place of an element in a list. A place that is found stays the first
when the list grows at its end, and lies behind every list without the element.
-/
namespace Lneto.ByteSearch

variable {α : Type} [DecidableEq α]

def indexByte (l : List α) (c : α) : Option ℕ := l.findIdx? (· == c)

theorem indexByte_append (l more : List α) (c : α) : indexByte (l ++ more) c =
      (indexByte l c).or ((indexByte more c).map (· + l.length)) := List.findIdx?_append

section
variable {l : List α} {c : α}

theorem indexByte_grow {i : ℕ} (h : indexByte l c = some i) (more : List α) :
    indexByte (l ++ more) c = some i := by
  rw [indexByte_append, h]
  rfl

theorem indexByte_eq_none : indexByte l c = none ↔ c ∉ l := by
  rw [indexByte, List.findIdx?_eq_none_iff]
  constructor
  · intro h hc
    simpa using h c hc
  intro h x hx
  simp only [beq_eq_false_iff_ne]
  rintro rfl
  exact h hx

theorem indexByte_split (h : c ∉ l) (more : List α) :
    indexByte (l ++ c :: more) c = some l.length := by
  rw [indexByte_append, indexByte_eq_none.2 h]
  simp [indexByte, List.findIdx?_cons]

theorem indexByte_lt {i : ℕ} (h : indexByte l c = some i) : i < l.length :=
  (List.findIdx?_eq_some_iff_getElem.1 h).1

theorem indexByte_get {i : ℕ} (h : indexByte l c = some i) : l[i]? = some c := by
  obtain ⟨hi, hc, -⟩ := List.findIdx?_eq_some_iff_getElem.1 h
  rw [List.getElem?_eq_getElem hi]
  simpa using hc

end

theorem indexByte_some_of_grow {l more : List α} {c : α} {i : ℕ}
    (h : indexByte (l ++ more) c = some i) (hi : i < l.length) : indexByte l c = some i := by
  rw [indexByte_append] at h
  cases hl : indexByte l c with
  | some j =>
    rw [hl] at h
    exact h
  | none =>
  rw [hl, Option.none_or, Option.map_eq_some_iff] at h
  obtain ⟨j, -, hj⟩ := h
  omega

end Lneto.ByteSearch
