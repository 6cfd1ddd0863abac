import Mathlib.Data.List.Basic
import Mathlib.Data.Nat.ModEq
import Mathlib.Tactic.IntervalCases

/-!
Circular storage of a stream in a finite buffer. Cells are numbered without end
and wrap modulo the buffer length. Holds says that a window of the stream is
stored at a fixed phase; a wrapped copy establishes it for the copied window and
keeps it for every other window within one lap.
-/
namespace Lneto.CircularBuffers

open List

variable {α : Type*}

/-- Copy data into the buffer from index i on, as far as the buffer goes. -/
def blit (buf : List α) (i : ℕ) (data : List α) : List α :=
  buf.take i ++ data.take (buf.length - i) ++ buf.drop (i + data.length)

/-- Copy data from index i on and continue at the start of the buffer. -/
def wrapBlit (buf : List α) (i : ℕ) (data : List α) : List α :=
  blit (blit buf i data) 0 (data.drop (buf.length - i))

section
variable (buf : List α)
include buf

theorem length_blit (i : ℕ) (data : List α) (hi : i ≤ buf.length) :
    (blit buf i data).length = buf.length := by
  simp only [blit, length_append, length_take, length_drop]
  omega

theorem length_wrapBlit (i : ℕ) (data : List α) (hi : i ≤ buf.length) :
    (wrapBlit buf i data).length = buf.length := by
  rw [wrapBlit, length_blit _ _ _ (Nat.zero_le _), length_blit _ _ _ hi]

theorem getElem?_blit_inside (i k : ℕ) (data : List α)
    (hk : k < data.length) (hik : i + k < buf.length) : (blit buf i data)[i + k]? = data[k]? := by
  have htake : (buf.take i).length = i := by simp only [length_take]; omega
  rw [blit, append_assoc, getElem?_append_right (by omega), htake,
    getElem?_append_left (by simp only [length_take]; omega)]
  rw [getElem?_take_of_lt (by omega)]
  congr 1
  omega

theorem getElem?_blit_outside (i j : ℕ) (data : List α)
    (hi : i ≤ buf.length) (hj : j < i ∨ i + data.length ≤ j) : (blit buf i data)[j]? = buf[j]? := by
  have htake : (buf.take i).length = i := by simp only [length_take]; omega
  rcases hj with hj | hj
  · rw [blit, append_assoc, getElem?_append_left (by omega), getElem?_take_of_lt hj]
  by_cases hlong : buf.length < i + data.length
  · rw [getElem?_eq_none (by rw [length_blit _ _ _ hi]; omega), getElem?_eq_none (by omega)]
  have hmid : (buf.take i ++ data.take (buf.length - i)).length = i + data.length := by
    simp only [length_append, length_take]
    omega
  rw [blit, getElem?_append_right (by omega), hmid, getElem?_drop]
  congr 1
  omega

theorem blit_nil (i : ℕ) : blit buf i [] = buf := by
  simp [blit]

theorem wrapBlit_of_fits (i : ℕ) (data : List α)
    (h : i + data.length ≤ buf.length) : wrapBlit buf i data = blit buf i data := by
  rw [wrapBlit, drop_of_length_le (by omega), blit_nil]

end

section Positions
variable {L : ℕ}

theorem mod_add_left_cancel {c a b : ℕ} (h : (c + a) % L = (c + b) % L) : a % L = b % L :=
  Nat.ModEq.add_left_cancel' c h

theorem add_mod_congr {a b : ℕ} (h : a % L = b % L) (k : ℕ) : (a + k) % L = (b + k) % L :=
  Nat.ModEq.add_right k h

/-- Of two representatives in 1..L of one position there is only one. -/
theorem eq_of_mod_eq {a b : ℕ} (ha : 0 < a) (haL : a ≤ L) (hb : 0 < b) (hbL : b ≤ L)
    (h : a % L = b % L) : a = b := by
  rcases Nat.lt_or_eq_of_le haL with ha' | rfl
  · rcases Nat.lt_or_eq_of_le hbL with hb' | rfl
    · rwa [Nat.mod_eq_of_lt ha', Nat.mod_eq_of_lt hb'] at h
    · rw [Nat.mod_eq_of_lt ha', Nat.mod_self] at h
      omega
  rcases Nat.lt_or_eq_of_le hbL with hb' | hb'
  · rw [Nat.mod_eq_of_lt hb', Nat.mod_self] at h
    omega
  · exact hb'.symm

/-- A position reached by stepping forward from another, up to the laps taken. -/
theorem step_cases {a b m : ℕ} (ha : a ≤ L) (hb : b ≤ L) (hm : 0 < m) (hmL : m ≤ L)
    (h : a % L = (b + m) % L) : a = b + m ∨ a + L = b + m ∨ a + 2 * L = b + m := by
  rcases Nat.eq_zero_or_pos a with rfl | hpos
  · have hdvd : L ∣ b + m := Nat.dvd_of_mod_eq_zero (by rw [← h, Nat.zero_mod])
    obtain ⟨c, hc⟩ := hdvd
    have hlaps : c < 3 := by
      by_contra hc3
      have : L * 3 ≤ L * c := Nat.mul_le_mul_left L (by omega)
      omega
    interval_cases c <;> omega
  by_cases hle : b + m ≤ L
  · exact .inl (eq_of_mod_eq hpos ha (by omega) hle h)
  right
  left
  have hred : (b + m - L) % L = (b + m) % L := (Nat.mod_eq_sub_mod (by omega)).symm
  have := eq_of_mod_eq hpos ha (by omega : 0 < b + m - L) (by omega) (h.trans hred.symm)
  omega

end Positions

section Cells
variable [Inhabited α]

/-- Cell i of the buffer, counted past its end back to the start. -/
def cell (buf : List α) (i : ℕ) : α := (buf[i % buf.length]?).getD default

def span (buf : List α) (start len : ℕ) : List α :=
  (List.range len).map fun k => cell buf (start + k)

section
variable (buf : List α)
include buf

theorem cell_of_lt (i : ℕ) (hi : i < buf.length) : cell buf i = (buf[i]?).getD default := by
  rw [cell, Nat.mod_eq_of_lt hi]

theorem cell_congr_mod {i j : ℕ}
    (h : i % buf.length = j % buf.length) : cell buf i = cell buf j := by
  rw [cell, cell, h]

theorem cell_add_length (i : ℕ) : cell buf (i + buf.length) = cell buf i := by
  apply cell_congr_mod
  exact Nat.add_mod_right _ _

theorem cell_wrapBlit_inside (i k : ℕ) (data : List α)
    (hi : i ≤ buf.length) (hdata : data.length ≤ buf.length) (hk : k < data.length) :
    cell (wrapBlit buf i data) (i + k) = (data[k]?).getD default := by
  have hlen : (wrapBlit buf i data).length = buf.length := length_wrapBlit _ _ _ hi
  have hblit : (blit buf i data).length = buf.length := length_blit _ _ _ hi
  by_cases hwrap : i + k < buf.length
  · rw [cell_of_lt _ _ (by omega), wrapBlit,
      getElem?_blit_outside _ _ _ _ (Nat.zero_le _) (.inr (by simp only [length_drop]; omega)),
      getElem?_blit_inside _ _ _ _ hk hwrap]
  have hidx : i + k = (i + k - buf.length) + (wrapBlit buf i data).length := by omega
  rw [hidx, cell_add_length, cell_of_lt _ _ (by omega), wrapBlit]
  have hin := getElem?_blit_inside (blit buf i data) 0 (i + k - buf.length)
    (data.drop (buf.length - i)) (by simp only [length_drop]; omega) (by omega)
  rw [Nat.zero_add] at hin
  rw [hin, getElem?_drop]
  congr 2
  omega

theorem cell_wrapBlit_outside (i k : ℕ) (data : List α) (hi : i ≤ buf.length) (hk : data.length ≤ k)
    (hkl : k < buf.length) : cell (wrapBlit buf i data) (i + k) = cell buf (i + k) := by
  have hlen : (wrapBlit buf i data).length = buf.length := length_wrapBlit _ _ _ hi
  have hblit : (blit buf i data).length = buf.length := length_blit _ _ _ hi
  have hstep : ∀ j, j < buf.length → (j < i ∧ data.length ≤ buf.length - i + j ∨
      i + data.length ≤ j) → (wrapBlit buf i data)[j]? = buf[j]? := by
    intro j hj hout
    rw [wrapBlit, getElem?_blit_outside _ _ _ _ (Nat.zero_le _)
      (.inr (by simp only [length_drop]; omega))]
    exact getElem?_blit_outside _ _ _ _ hi (by omega)
  by_cases hwrap : i + k < buf.length
  · rw [cell_of_lt _ _ (by omega), cell_of_lt _ _ hwrap, hstep _ hwrap (by omega)]
  have hidx : i + k = (i + k - buf.length) + buf.length := by omega
  rw [hidx, cell_add_length buf]
  nth_rewrite 2 [← hlen]
  rw [cell_add_length, cell_of_lt _ _ (by omega), cell_of_lt _ _ (by omega),
    hstep _ (by omega) (by omega)]

@[simp] theorem length_span (start len : ℕ) : (span buf start len).length = len := by
  simp [span]

theorem getElem?_span (start len k : ℕ) (hk : k < len) :
    (span buf start len)[k]? = some (cell buf (start + k)) := by
  simp [span, hk]

end

theorem span_congr (buf buf' : List α) (start start' len : ℕ)
    (h : ∀ k, k < len → cell buf (start + k) = cell buf' (start' + k)) :
    span buf start len = span buf' start' len := by
  apply map_congr_left
  intro k hk
  exact h k (mem_range.mp hk)

section
variable (buf : List α)
include buf

theorem span_congr_mod {i j : ℕ} (len : ℕ)
    (h : i % buf.length = j % buf.length) : span buf i len = span buf j len := by
  apply span_congr
  intro k _
  apply cell_congr_mod
  rw [Nat.add_mod, h, ← Nat.add_mod]

theorem span_add (start m n : ℕ) :
    span buf start (m + n) = span buf start m ++ span buf (start + m) n := by
  simp only [span, range_add, map_append, map_map]
  congr 1
  apply map_congr_left
  intro k _
  simp [Nat.add_assoc]

theorem take_span (start len n : ℕ) : (span buf start len).take n = span buf start (min n len) := by
  simp [span, ← map_take, take_range]

theorem drop_span (start len n : ℕ) (hn : n ≤ len) :
    (span buf start len).drop n = span buf (start + n) (len - n) := by
  have hlen : len = n + (len - n) := by omega
  rw [hlen, span_add, drop_append_of_le_length (by simp)]
  simp

theorem span_eq_slice (start len : ℕ) (h : start + len ≤ buf.length) :
    span buf start len = (buf.drop start).take len := by
  apply ext_getElem?
  intro k
  by_cases hk : k < len
  · rw [getElem?_span _ _ _ _ hk, getElem?_take_of_lt hk, getElem?_drop,
      cell_of_lt _ _ (by omega), getElem?_eq_getElem (by omega)]
    rfl
  rw [getElem?_eq_none (by simpa using hk), getElem?_eq_none]
  simp only [length_take]
  omega

/-- A span that passes the buffer's end is its tail and then its head. -/
theorem span_eq_wrapped (start len : ℕ) (hs : start ≤ buf.length)
    (hwrap : buf.length ≤ start + len) (hlen : len ≤ buf.length) :
    span buf start len = buf.drop start ++ buf.take (start + len - buf.length) := by
  have hsplit : len = (buf.length - start) + (start + len - buf.length) := by omega
  have hmid : start + (buf.length - start) = buf.length := by omega
  conv_lhs => rw [hsplit]
  rw [span_add, span_eq_slice _ _ _ (by omega), hmid]
  congr 1
  · rw [take_of_length_le (by simp)]
  · have hmod : buf.length % buf.length = 0 % buf.length := by simp
    rw [span_congr_mod buf _ hmod, span_eq_slice _ _ _ (by omega), drop_zero]

end

/-- The window [lo, hi) of a stream is stored with its position k in cell phase + k. -/
def Holds (buf : List α) (phase : ℕ) (stream : List α) (lo hi : ℕ) : Prop :=
  ∀ k, lo ≤ k → k < hi → cell buf (phase + k) = (stream[k]?).getD default

theorem Holds.mono {buf : List α} {phase : ℕ} {stream : List α} {lo hi lo' hi' : ℕ}
    (h : Holds buf phase stream lo hi) (hlo : lo ≤ lo') (hhi : hi' ≤ hi) :
    Holds buf phase stream lo' hi' := by
  intro k hk hk'
  exact h k (by omega) (by omega)

theorem Holds.span_eq {buf : List α} {phase : ℕ} {stream : List α} {lo hi : ℕ}
    (h : Holds buf phase stream lo hi) (hhi : hi ≤ stream.length) :
    span buf (phase + lo) (hi - lo) = (stream.drop lo).take (hi - lo) := by
  apply ext_getElem?
  intro k
  by_cases hk : k < hi - lo
  · rw [getElem?_span _ _ _ _ hk, getElem?_take_of_lt hk, getElem?_drop,
      Nat.add_assoc, h (lo + k) (by omega) (by omega), getElem?_eq_getElem (by omega)]
    rfl
  rw [getElem?_eq_none (by simpa using hk), getElem?_eq_none]
  simp only [length_take, length_drop]
  omega

/-- Copying the stream's own bytes to their cells stores that window and keeps every
window within one lap. -/
theorem Holds.wrapBlit {buf : List α} {phase i : ℕ} {stream data : List α} {at_ lo hi : ℕ}
    (hi' : i ≤ buf.length) (hlen : data.length ≤ buf.length)
    (hphase : i % buf.length = (phase + at_) % buf.length)
    (hdata : ∀ k, k < data.length → data[k]? = stream[at_ + k]?)
    (h : ∀ k, lo ≤ k → k < hi → ¬ (at_ ≤ k ∧ k < at_ + data.length) →
      cell buf (phase + k) = (stream[k]?).getD default)
    (hlo : at_ + data.length ≤ lo + buf.length) (hhi : hi ≤ at_ + buf.length) :
    Holds (wrapBlit buf i data) phase stream lo hi := by
  have hl : (CircularBuffers.wrapBlit buf i data).length = buf.length := length_wrapBlit _ _ _ hi'
  intro k hk hk'
  by_cases hin : at_ ≤ k ∧ k < at_ + data.length
  · have hcell : cell (CircularBuffers.wrapBlit buf i data) (phase + k) =
        cell (CircularBuffers.wrapBlit buf i data) (i + (k - at_)) := by
      apply cell_congr_mod
      rw [hl, Nat.add_mod i, hphase, ← Nat.add_mod]
      congr 1
      omega
    rw [hcell, cell_wrapBlit_inside _ _ _ _ hi' hlen (by omega), hdata _ (by omega)]
    congr 2
    omega
  rw [← h k hk hk' hin]
  -- the untouched cells are those from data.length up to one lap past the copy
  obtain ⟨j, hj, hjl, hmod⟩ : ∃ j, data.length ≤ j ∧ j < buf.length ∧
      (phase + k) % buf.length = (i + j) % buf.length := by
    by_cases hge : at_ ≤ k
    · refine ⟨k - at_, by omega, by omega, ?_⟩
      rw [Nat.add_mod i, hphase, ← Nat.add_mod]
      congr 1
      omega
    refine ⟨k + buf.length - at_, by omega, by omega, ?_⟩
    rw [Nat.add_mod i, hphase, ← Nat.add_mod, ← Nat.add_mod_right]
    congr 1
    omega
  have hmod' : (phase + k) % (CircularBuffers.wrapBlit buf i data).length =
      (i + j) % (CircularBuffers.wrapBlit buf i data).length := by rw [hl]; exact hmod
  rw [cell_congr_mod _ hmod', cell_congr_mod _ hmod, cell_wrapBlit_outside _ _ _ _ hi' hj hjl]

end Cells

end Lneto.CircularBuffers
