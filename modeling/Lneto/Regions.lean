import Lneto.CircularBuffers

/-!
Regions of one memory: a start and a length. Bytes written to one region are
read back from it and leave every region apart from it as it was.
-/
namespace Lneto.Regions

open CircularBuffers List

variable {α : Type*}

structure Region where
  start : ℕ := 0
  len : ℕ := 0
deriving DecidableEq, Repr

def read (mem : List α) (r : Region) : List α := (mem.drop r.start).take r.len

def Apart (a b : Region) : Prop :=
  a.len = 0 ∨ b.len = 0 ∨ a.start + a.len ≤ b.start ∨ b.start + b.len ≤ a.start

theorem Apart.symm {a b : Region} (h : Apart a b) : Apart b a := by
  unfold Apart at h ⊢
  omega

theorem apart_empty (a : Region) {b : Region} (h : b.len = 0) : Apart a b := .inr (.inl h)

/-- A part of a region is apart from all that the region is apart from. -/
theorem Apart.shrink {a b : Region} (h : Apart a b) {n : ℕ} (hn : n ≤ b.len) :
    Apart a ⟨b.start, n⟩ := by
  unfold Apart at h ⊢
  simp only
  omega

theorem read_empty (mem : List α) {r : Region} (h : r.len = 0) : read mem r = [] := by
  rw [read, h, take_zero]

theorem getElem?_read (mem : List α) (r : Region) (k : ℕ) :
    (read mem r)[k]? = if k < r.len then mem[r.start + k]? else none := by
  rw [read, getElem?_take, getElem?_drop]

theorem read_blit_same {mem : List α} {i : ℕ} {data : List α} (h : i + data.length ≤ mem.length) :
    read (blit mem i data) ⟨i, data.length⟩ = data := by
  apply ext_getElem?
  intro k
  rw [getElem?_read]
  by_cases hk : k < data.length
  · rw [if_pos hk, getElem?_blit_inside mem i k data hk (by omega)]
  · rw [if_neg hk, getElem?_eq_none (by omega)]

theorem read_blit_apart {mem : List α} {i : ℕ} {data : List α} {r : Region} (hi : i ≤ mem.length)
    (h : Apart r ⟨i, data.length⟩) : read (blit mem i data) r = read mem r := by
  apply ext_getElem?
  intro k
  rw [getElem?_read, getElem?_read]
  by_cases hk : k < r.len
  · rw [if_pos hk, if_pos hk]
    rcases h with h | h | h | h
    · omega
    · rw [eq_nil_of_length_eq_zero h, blit_nil]
    · exact getElem?_blit_outside _ _ _ _ hi (.inl (by simp only at h; omega))
    · exact getElem?_blit_outside _ _ _ _ hi (.inr (by simp only at h; omega))
  · rw [if_neg hk, if_neg hk]

theorem read_add (mem : List α) (start m n : ℕ) :
    read mem ⟨start, m + n⟩ = read mem ⟨start, m⟩ ++ read mem ⟨start + m, n⟩ := by
  simp only [read, take_add, drop_drop]

/-- A region grows by what is written right behind it. -/
theorem read_blit_extend (mem : List α) (start len : ℕ) (data : List α)
    (h : start + len + data.length ≤ mem.length) :
    read (blit mem (start + len) data) ⟨start, len + data.length⟩ =
      read mem ⟨start, len⟩ ++ data := by
  have hapart : Apart ⟨start, len⟩ ⟨start + len, data.length⟩ := .inr (.inr (.inl le_rfl))
  rw [read_add, read_blit_apart (by omega) hapart, read_blit_same h]

theorem read_append {mem : List α} {r : Region} (more : List α)
    (h : r.start + r.len ≤ mem.length) : read (mem ++ more) r = read mem r := by
  apply ext_getElem?
  intro k
  rw [getElem?_read, getElem?_read]
  by_cases hk : k < r.len
  · rw [if_pos hk, if_pos hk, getElem?_append_left (by omega)]
  · rw [if_neg hk, if_neg hk]

end Lneto.Regions
