import Mathlib.Data.UInt
import Mathlib.Tactic.Common

/-!
Views of a block of memory: a start, a length and a capacity, the way slices
work. Taking a part is checked against the capacity, reading against the length.
-/
namespace Lneto.Views

open List

inductive Fault where
  | sliceBounds
  | indexOutOfRange
deriving DecidableEq, Repr

structure View where
  start : ℕ
  len : ℕ
  cap : ℕ
  fits : len ≤ cap
deriving DecidableEq, Repr

namespace View

def slice (v : View) (lo hi : ℤ) : Except Fault View :=
  if h : 0 ≤ lo ∧ lo ≤ hi ∧ hi ≤ v.cap then
    .ok ⟨v.start + lo.toNat, (hi - lo).toNat, v.cap - lo.toNat, by omega⟩
  else .error .sliceBounds

def tail (v : View) (lo : ℤ) : Except Fault View := v.slice lo v.len

def bytes (mem : ℕ → UInt8) (v : View) : List UInt8 :=
  (List.range v.len).map fun i => mem (v.start + i)

def index (mem : ℕ → UInt8) (v : View) (i : ℕ) : Except Fault UInt8 :=
  if i < v.len then .ok (mem (v.start + i)) else .error .indexOutOfRange

def word (high low : UInt8) : ℕ := high.toNat * 256 + low.toNat

def uint16 (mem : ℕ → UInt8) (v : View) (lo : ℕ) : Except Fault ℕ := do
  let w ← v.slice lo (lo + 2)
  let high ← w.index mem 0
  let low ← w.index mem 1
  return word high low

def store (mem : ℕ → UInt8) (a : ℕ) (data : List UInt8) : ℕ → UInt8 := fun i =>
  if a ≤ i ∧ i < a + data.length then data.getD (i - a) 0 else mem i

def put (mem : ℕ → UInt8) (v : View) (i : ℕ) (b : UInt8) : Except Fault (ℕ → UInt8) :=
  if i < v.len then .ok (store mem (v.start + i) [b]) else .error .indexOutOfRange

def copyTo (mem : ℕ → UInt8) (v : View) (lo : ℕ) (data : List UInt8) :
    Except Fault (ℕ → UInt8) := do
  let w ← v.slice lo (lo + data.length)
  return store mem w.start data

def split16 (value : ℕ) : List UInt8 := [UInt8.ofNat (value / 256), UInt8.ofNat value]

def put16 (mem : ℕ → UInt8) (v : View) (lo value : ℕ) : Except Fault (ℕ → UInt8) :=
  v.copyTo mem lo (split16 value)

def Inside (w v : View) : Prop := v.start ≤ w.start ∧ w.start + w.len ≤ v.start + v.len

variable {mem : ℕ → UInt8} {v : View}

theorem word_lt (high low : UInt8) : word high low < 65536 := by
  have h1 := high.toNat_lt
  have h2 := low.toNat_lt
  unfold word
  omega

theorem slice_ok {lo hi : ℕ} (h : lo ≤ hi) (hcap : hi ≤ v.cap) :
    v.slice lo hi = .ok ⟨v.start + lo, hi - lo, v.cap - lo, by omega⟩ := by
  unfold slice
  rw [dif_pos ⟨by omega, by omega, by omega⟩]
  congr 2
  omega

theorem slice_fault {lo hi : ℤ} (h : ¬ (0 ≤ lo ∧ lo ≤ hi ∧ hi ≤ v.cap)) :
    v.slice lo hi = .error .sliceBounds := dif_neg h

theorem slice_view {lo hi : ℕ} (h : lo ≤ hi) (hcap : hi ≤ v.cap) :
    ∃ w, v.slice lo hi = .ok w ∧ w.start = v.start + lo ∧ w.len = hi - lo ∧ w.cap = v.cap - lo :=
  ⟨_, slice_ok h hcap, rfl, rfl, rfl⟩

theorem tail_view {lo : ℕ} (h : lo ≤ v.len) :
    ∃ w, v.tail lo = .ok w ∧ w.start = v.start + lo ∧ w.len = v.len - lo ∧ w.cap = v.cap - lo :=
  slice_view h v.fits

theorem tail_inv {lo : ℤ} {w : View} (h : v.tail lo = .ok w) :
    ∃ m : ℕ, lo = m ∧ m ≤ v.len ∧ w.start = v.start + m ∧ w.len = v.len - m := by
  unfold tail slice at h
  split at h
  · rename_i hin
    obtain ⟨m, rfl⟩ := Int.eq_ofNat_of_zero_le hin.1
    cases h
    exact ⟨m, rfl, by omega, rfl, by simp only; omega⟩
  · cases h

theorem slice_inside {lo hi : ℕ} (h : lo ≤ hi) (hlen : hi ≤ v.len) :
    ∃ w, v.slice lo hi = .ok w ∧ w.Inside v := by
  have hfits := v.fits
  obtain ⟨w, hw, hstart, hlen', -⟩ := slice_view h (show hi ≤ v.cap by omega)
  exact ⟨w, hw, by omega, by omega⟩

theorem tail_inside {lo : ℕ} (h : lo ≤ v.len) : ∃ w, v.tail lo = .ok w ∧ w.Inside v :=
  slice_inside h le_rfl

theorem index_ok {i : ℕ} (h : i < v.len) : v.index mem i = .ok (mem (v.start + i)) := if_pos h

theorem uint16_ok {lo : ℕ} (h : lo + 2 ≤ v.len) :
    v.uint16 mem lo = .ok (word (mem (v.start + lo)) (mem (v.start + lo + 1))) := by
  have hcap := v.fits
  have hslice : v.slice lo (lo + 2) = .ok ⟨v.start + lo, lo + 2 - lo, v.cap - lo, by omega⟩ :=
    @slice_ok v lo (lo + 2) (by omega) (by omega)
  unfold uint16
  rw [hslice]
  have h0 : 0 < lo + 2 - lo := by omega
  have h1 : 1 < lo + 2 - lo := by omega
  simp only [index, h0, h1, if_true, bind, Except.bind, pure, Except.pure, Nat.add_zero]

theorem bytes_slice {lo hi : ℕ} (h : lo ≤ hi) (hcap : hi ≤ v.cap) : ∃ w, v.slice lo hi = .ok w ∧
      w.bytes mem = (range (hi - lo)).map fun i => mem (v.start + lo + i) := by
  obtain ⟨w, hw, hstart, hlen, -⟩ := slice_view h hcap
  exact ⟨w, hw, by rw [bytes, hlen, hstart]⟩

theorem store_outside {a i : ℕ} {data : List UInt8} (mem : ℕ → UInt8)
    (h : i < a ∨ a + data.length ≤ i) : store mem a data i = mem i := if_neg (by omega)

@[simp] theorem length_split16 (value : ℕ) : (split16 value).length = 2 := rfl

theorem store_split16 (mem : ℕ → UInt8) (a old value : ℕ) :
    store (store mem a (split16 old)) a (split16 value) = store mem a (split16 value) := by
  funext i
  by_cases h : a ≤ i ∧ i < a + 2 <;> simp [store, h]

theorem put_ok {i : ℕ} (h : i < v.len) (b : UInt8) :
    v.put mem i b = .ok (store mem (v.start + i) [b]) := if_pos h

theorem copyTo_ok {lo : ℕ} {data : List UInt8} (h : lo + data.length ≤ v.cap) :
    v.copyTo mem lo data = .ok (store mem (v.start + lo) data) := by
  obtain ⟨w, hw, hstart, -⟩ := slice_view (show lo ≤ lo + data.length by omega) h
  push_cast at hw
  unfold copyTo
  rw [hw, ← hstart]
  rfl

theorem put16_ok {lo : ℕ} (h : lo + 2 ≤ v.cap) (value : ℕ) :
    v.put16 mem lo value = .ok (store mem (v.start + lo) (split16 value)) := copyTo_ok h

theorem word_split16 (value : ℕ) :
    word (UInt8.ofNat (value / 256)) (UInt8.ofNat value) = value % 65536 := by
  unfold word
  rw [UInt8.toNat_ofNat', UInt8.toNat_ofNat']
  omega

theorem length_bytes (mem : ℕ → UInt8) (v : View) : (v.bytes mem).length = v.len := by
  simp [bytes]

end View

def carried (carrierData : List UInt8) (offset : ℤ) : Except Fault (List UInt8) :=
  if 0 ≤ offset ∧ offset ≤ carrierData.length then .ok (carrierData.drop offset.toNat)
  else .error .sliceBounds

theorem carried_inside {carrierData : List UInt8} {offset : ℤ} (hlow : 0 ≤ offset)
    (hhigh : offset ≤ carrierData.length) :
    carried carrierData offset = .ok (carrierData.drop offset.toNat) := if_pos ⟨hlow, hhigh⟩

theorem carried_ok {carrierData buf : List UInt8} {offset : ℤ}
    (h : carried carrierData offset = .ok buf) :
    0 ≤ offset ∧ offset ≤ carrierData.length ∧ buf = carrierData.drop offset.toNat := by
  unfold carried at h
  split_ifs at h with hoffset
  cases h
  exact ⟨hoffset.1, hoffset.2, rfl⟩

def wordAt (b : List UInt8) (i : ℕ) : ℕ := View.word (b.getD i 0) (b.getD (i + 1) 0)

theorem wordAt_congr {b b' : List UInt8} {i : ℕ} (h0 : b[i]? = b'[i]?)
    (h1 : b[i + 1]? = b'[i + 1]?) : wordAt b i = wordAt b' i := by
  rw [wordAt, wordAt, getD_eq_getElem?_getD, getD_eq_getElem?_getD,
    getD_eq_getElem?_getD, getD_eq_getElem?_getD, h0, h1]

theorem wordAt_take {b : List UInt8} {i n : ℕ} (h : i + 2 ≤ n) : wordAt (b.take n) i = wordAt b i :=
  wordAt_congr (getElem?_take_of_lt (by omega)) (getElem?_take_of_lt (by omega))

theorem wordAt_append {b more : List UInt8} {i : ℕ} (h : i + 2 ≤ b.length) :
    wordAt (b ++ more) i = wordAt b i :=
  wordAt_congr (getElem?_append_left (by omega)) (getElem?_append_left (by omega))

theorem wordAt_split16 (front : List UInt8) (value : ℕ) (back : List UInt8) :
    wordAt (front ++ (View.split16 value ++ back)) front.length = value % 65536 := by
  have h0 : (front ++ (View.split16 value ++ back))[front.length]? =
      some (UInt8.ofNat (value / 256)) := by
    rw [getElem?_append_right le_rfl, Nat.sub_self]
    rfl
  have h1 : (front ++ (View.split16 value ++ back))[front.length + 1]? =
      some (UInt8.ofNat value) := by
    rw [getElem?_append_right (by omega), Nat.add_sub_cancel_left]
    rfl
  rw [wordAt, getD_eq_getElem?_getD, getD_eq_getElem?_getD, h0, h1]
  exact View.word_split16 value

end Lneto.Views
